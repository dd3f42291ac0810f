import PlusWeb.EventLoop

/-!
# One response for each request

The log of a connection is a sequence of turns, a request delivered and its
response sent, with at most one error response behind them.

This holds of every run in which no read ends with llhttp pausing for an
upgrade or finding bytes behind the last message, and every handler call
returns.  The parser takes llhttp's pause and its closed state for invalid
bytes, so that in other runs a second response follows.
-/

namespace PlusWeb

variable {J A : Type} {llhttp : Llhttp}

/-- A request and the response sent for it. -/
structure Turn (J : Type) where
  request : HttpRequest J
  keepAlive : Bool
  head : StdString
  body : StdString

/-- What a turn leaves in the log. -/
def Turn.entries (turn : Turn J) : List (LogEntry J) :=
  [.delivered turn.request turn.keepAlive, .sent turn.head turn.body]

theorem Turn.length_flatMap_entries (turns : List (Turn J)) :
    (turns.flatMap entries).length = 2 * turns.length := by
  simp [List.length_flatMap, entries, Nat.mul_comm]

/-- The request with its keep-alive flag. -/
def Turn.delivery (turn : Turn J) : HttpRequest J × Bool :=
  (turn.request, turn.keepAlive)

/-! ## What the operations do to a session -/

namespace Session

theorem closeConn_log (session : Session J A) :
    session.closeConn.log = session.log := by
  unfold closeConn
  split_ifs <;> rfl

theorem closeConn_closing (session : Session J A) :
    session.closeConn.closing = true := by
  unfold closeConn
  split_ifs with closing
  · exact closing
  · rfl

theorem closeConn_live (session : Session J A) :
    session.closeConn.live = false := by
  simp [live, closeConn_closing]

theorem closeConn_shouldClose (session : Session J A) :
    session.closeConn.shouldClose = session.shouldClose := by
  unfold closeConn
  split_ifs <;> rfl

theorem send_log
    (kernel : Nat → KernelAnswer) (head body : StdString)
    (session : Session J A) :
    (session.send kernel head body).log =
      session.log ++ [.sent head body] := by
  unfold send
  dsimp only
  split_ifs
  · rfl
  · split
    · exact closeConn_log _
    · rfl

theorem send_shouldClose
    (kernel : Nat → KernelAnswer) (head body : StdString)
    (session : Session J A) :
    (session.send kernel head body).shouldClose = session.shouldClose := by
  unfold send
  dsimp only
  split_ifs
  · rfl
  · split
    · exact closeConn_shouldClose _
    · rfl

end Session

/-! ## The turns of one read -/

variable [Json J]

/-- The response is what `handleRequest` makes of the request. -/
def Turn.Answers (server : Server J A) (turn : Turn J) : Prop :=
  ∃ memory shouldClose app,
    (handleRequest server.setup server.callbacks memory turn.request
        turn.keepAlive shouldClose app).reply =
      .ok (turn.head, turn.body)

/-- A reply says whether to close. -/
theorem handleRequest_shouldClose
    {setup : Setup} {callbacks : Callbacks J A} {memory : Int}
    {request : HttpRequest J} {keepAlive shouldClose : Bool} {app : A}
    {reply : StdString × StdString}
    (replied :
      (handleRequest setup callbacks memory request keepAlive shouldClose
        app).reply = .ok reply) :
    (handleRequest setup callbacks memory request keepAlive shouldClose
        app).shouldClose = !keepAlive := by
  unfold handleRequest at replied ⊢
  split at replied
  · cases replied
  · rfl

namespace Server

/-- A handler call that returns is a turn. -/
theorem onRequest_turn
    (server : Server J A) {request : HttpRequest J} {keepAlive : Bool}
    {session after : Session J A}
    (returned :
      server.onRequest request keepAlive session = (.returned, after)) :
    ∃ turn : Turn J, turn.delivery = (request, keepAlive) ∧
      turn.Answers server ∧ after.log = session.log ++ turn.entries ∧
        after.shouldClose = !keepAlive := by
  cases replied :
      (server.serve request keepAlive
        (session.note (.delivered request keepAlive))).reply with
  | error exception =>
      rw [onRequest_error replied] at returned
      cases returned
  | ok reply =>
      rcases reply with ⟨head, body⟩
      rw [onRequest_ok replied] at returned
      rcases Prod.mk.inj returned with ⟨-, rfl⟩
      refine
        ⟨⟨request, keepAlive, head, body⟩, rfl, ⟨_, _, _, replied⟩, ?_, ?_⟩
      · rw [Session.send_log]
        simp [Session.note, Session.keep, Turn.entries]
      · rw [Session.send_shouldClose]
        exact handleRequest_shouldClose replied

/-- The turns of one read, if every handler call returns. -/
theorem each_turns
    (server : Server J A) {deliveries : List (HttpRequest J × Bool)}
    {session after : Session J A}
    (returned :
      server.onRequest.each deliveries session = (.returned, after)) :
    ∃ turns : List (Turn J), turns.map Turn.delivery = deliveries ∧
      (∀ turn ∈ turns, turn.Answers server) ∧
      after.log = session.log ++ turns.flatMap Turn.entries ∧
      after.shouldClose =
        (deliveries.getLast?.map fun delivery => !delivery.2).getD
          session.shouldClose := by
  induction deliveries generalizing session with
  | nil =>
      rcases Prod.mk.inj returned with ⟨-, rfl⟩
      exact ⟨[], rfl, by simp, by simp, rfl⟩
  | cons delivery deliveries induction =>
      rcases delivery with ⟨request, keepAlive⟩
      simp only [RequestHandler.each, Action.seq] at returned
      split at returned
      case h_1 middle first =>
        obtain ⟨turn, delivered, answers, log, closing⟩ :=
          server.onRequest_turn first
        rcases induction returned with ⟨turns, rest, all, log', closing'⟩
        refine ⟨turn :: turns, ?_, ?_, ?_, ?_⟩
        · rw [List.map_cons, delivered, rest]
        · exact List.forall_mem_cons.mpr ⟨answers, all⟩
        · rw [log', log, List.flatMap_cons, List.append_assoc]
        · rw [closing', closing]
          cases deliveries with
          | nil => rfl
          | cons next deliveries => simp [List.getLast?_cons]
      case h_2 exception middle first => cases returned

end Server

/-! ## Runs -/

namespace HttpParser

/--
The bytes after the last request delivered are malformed or too large:
a callback stops the parser, or llhttp reports an error of the syntax.
-/
def Rejects
    (J : Type) [Json J] (parser : HttpParser llhttp) (data : StdString) :
    Prop :=
  (∃ failure headerLimitHit,
      (parser.reads J data).1 = .error (.failed failure headerLimitHit)) ∨
    ∃ name, (llhttp.execute parser.state data).errno = .other name

end HttpParser

namespace Conn

/-- The log of a run is made of these turns and this error response. -/
structure Orderly
    (server : Server J A) (start : Conn llhttp J A)
    (events : List (Event A)) (turns : List (Turn J))
    (rejection : Option StdString) : Prop where
  /--
  Each request is followed by its response, and the error response comes
  last.
  -/
  log : (start.run server events).session.log =
    turns.flatMap Turn.entries ++
      rejection.toList.map (LogEntry.sent · [])
  answers : ∀ turn ∈ turns, turn.Answers server
  /-- Nothing follows a response that says `Connection: close`. -/
  closes : ∀ front turn back, turns = front ++ turn :: back →
    turn.keepAlive = false → back = [] ∧ rejection = none
  /-- The error response answers bytes that are malformed or too large. -/
  rejects : ∀ reply, rejection = some reply →
    ∃ (status : Nat) (past : List (Event A)) (data : StdString)
        (future : List (Event A)),
      (status = 400 ∨ status = 431) ∧
        errorResponse J status = .ok reply ∧
        events = past ++ .read data :: future ∧
        (start.run server past).parser.Rejects J data
  /-- While the connection is open, more turns can follow. -/
  proceeds : (start.run server events).session.live = true →
    (∀ turn ∈ turns, turn.keepAlive = true) ∧ rejection = none

/--
A read does not end with llhttp pausing for an upgrade or finding bytes
behind the last message, and every request it delivers gets a response.
-/
def Serves (server : Server J A) (conn : Conn llhttp J A) :
    Event A → Prop
  | .read data => conn.session.live = true →
      (llhttp.execute conn.parser.state data).errno ≠ .pausedUpgrade ∧
        (llhttp.execute conn.parser.state data).errno ≠ .closedConnection ∧
        (server.onRequest.each (conn.parser.delivers J data)
          { conn.session with shouldClose := false }).1 = .returned
  | _ => True

/-- An event that is no read, or comes too late, sends nothing. -/
theorem step_quiet
    (server : Server J A) (conn : Conn llhttp J A) {event : Event A}
    (quiet : conn.session.live = true → ∀ data, event ≠ .read data) :
    (conn.step server event).session.log = conn.session.log ∧
      ((conn.step server event).session.live = true →
        conn.session.live = true) := by
  cases live : conn.session.live with
  | false =>
      have same : conn.step server event = conn := by
        cases event <;> simp [step, live]
      rw [same, live]
      exact ⟨rfl, id⟩
  | true =>
      refine ⟨?_, fun _ => rfl⟩
      cases event with
      | read data => exact absurd rfl (quiet live data)
      | hangUp => simp [step, live, closeConn, Session.closeConn_log]
      | writable room => simp [step, live]
      | writeFailed => simp [step, live, closeConn, Session.closeConn_log]
      | stop => simp [step, live, closeConn, Session.closeConn_log]
      | elsewhere app => simp [step, live]

variable {server : Server J A} {start : Conn llhttp J A}

theorem Orderly.quiet
    {past : List (Event A)} {turns : List (Turn J)}
    {rejection : Option StdString} {event : Event A}
    (orderly : start.Orderly server past turns rejection)
    (quiet :
      (start.run server past).session.live = true →
        ∀ data, event ≠ .read data) :
    start.Orderly server (past ++ [event]) turns rejection := by
  rcases step_quiet server (start.run server past) quiet with ⟨log, live⟩
  have stepped :
      start.run server (past ++ [event]) =
        (start.run server past).step server event :=
    Runs.run_concat _ _ _ _
  refine
    { log := by rw [stepped, log, orderly.log]
      answers := orderly.answers
      closes := orderly.closes
      rejects := ?_
      proceeds := by
        rw [stepped]
        exact fun after => orderly.proceeds (live after) }
  intro reply rejected
  obtain ⟨status, early, data, future, code, made, rfl, rejects⟩ :=
    orderly.rejects reply rejected
  exact
    ⟨status, early, data, future ++ [event], code, made, by simp, rejects⟩

/--
The turns of a read behind those of an open connection: one that does not
keep the connection alive is the last, and then the parser accepts the read
or finds fault with what follows the request.
-/
theorem last_of_closing
    (closes : llhttp.Closes) {parser : HttpParser llhttp} {data : StdString}
    {turns new : List (Turn J)} (alive : ∀ turn ∈ turns, turn.keepAlive = true)
    (delivered : new.map Turn.delivery = parser.delivers J data)
    {front back : List (Turn J)} {turn : Turn J}
    (cut : turns ++ new = front ++ turn :: back)
    (closing : turn.keepAlive = false) :
    back = [] ∧ new.getLast? = some turn ∧
      (∃ impl, (parser.reads J data).1 = .ok impl) ∧
        ((llhttp.execute parser.state data).errno = .ok ∨
          (llhttp.execute parser.state data).errno = .pausedUpgrade ∨
          (llhttp.execute parser.state data).errno = .closedConnection) := by
  obtain ⟨middle, rfl⟩ : ∃ middle, new = middle ++ turn :: back := by
    rcases List.append_eq_append_iff.mp cut with
      ⟨middle, -, new⟩ | ⟨middle, early, later⟩
    · exact ⟨middle, new⟩
    · cases middle with
      | nil => exact ⟨[], later.symm⟩
      | cons first middle =>
          rcases List.cons.inj later with ⟨rfl, -⟩
          have contradiction := alive turn (by simp [early])
          rw [closing] at contradiction
          cases contradiction
  have split :
      parser.delivers J data =
        middle.map Turn.delivery ++
          (turn.request, false) :: back.map Turn.delivery := by
    rw [← delivered, List.map_append, List.map_cons, Turn.delivery, closing]
  rcases HttpParser.reads_of_closing closes split with ⟨none, accepted, errno⟩
  obtain rfl := List.map_eq_nil_iff.mp none
  exact ⟨rfl, by simp, accepted, errno⟩

/-- A read in an open connection. -/
theorem Orderly.read
    (closes : llhttp.Closes)
    {past : List (Event A)} {turns : List (Turn J)}
    {rejection : Option StdString} {data : StdString}
    (orderly : start.Orderly server past turns rejection)
    (live : (start.run server past).session.live = true)
    (serves : (start.run server past).Serves server (.read data)) :
    ∃ turns' rejection',
      start.Orderly server (past ++ [.read data]) turns' rejection' := by
  rcases orderly.proceeds live with ⟨alive, rfl⟩
  rcases serves live with ⟨noPause, notClosed, returned⟩
  have log := orderly.log
  generalize conn_eq : start.run server past = conn at *
  cases ran :
      server.onRequest.each (conn.parser.delivers J data)
        { conn.session with shouldClose := false } with
  | mk outcome session =>
  obtain rfl : outcome = .returned := by rw [ran] at returned; exact returned
  rcases server.each_turns ran with ⟨new, delivered, answers, newLog, closing⟩
  have stepped :
      start.run server (past ++ [.read data]) =
        afterExecute server conn.parser
          (conn.parser.ending data (conn.parser.reads J data).1,
            session) := by
    rw [run, Runs.run_concat]
    change (start.run server past).step server (.read data) = _
    rw [conn_eq, step, if_pos live, onRead, HttpParser.execute_eq, ran]
  have answersAll : ∀ turn ∈ turns ++ new, turn.Answers server := by
    intro turn member
    exact (List.mem_append.mp member).elim (orderly.answers turn)
      (answers turn)
  have sessionLog :
      session.log = (turns ++ new).flatMap Turn.entries := by
    rw [newLog, log]
    simp
  have lastOnly {front back : List (Turn J)} {turn : Turn J}
      (cut : turns ++ new = front ++ turn :: back)
      (ends : turn.keepAlive = false) :=
    last_of_closing closes alive delivered cut ends
  have unrejected
      (sameLog :
        (start.run server (past ++ [.read data])).session.log = session.log)
      (proceeds :
        (start.run server (past ++ [.read data])).session.live = true →
          ∀ turn ∈ turns ++ new, turn.keepAlive = true) :
      start.Orderly server (past ++ [.read data]) (turns ++ new) none :=
    { log := by rw [sameLog, sessionLog]; simp
      answers := answersAll
      closes := fun front turn back cut ends => ⟨(lastOnly cut ends).1, rfl⟩
      rejects := by simp
      proceeds := fun after => ⟨proceeds after, rfl⟩ }
  have rejected
      {status : Nat} (code : status = 400 ∨ status = 431)
      (rejects : conn.parser.Rejects J data)
      (ended : ∃ reason,
        conn.parser.ending data (conn.parser.reads J data).1 =
          .failed status reason) :
      ∃ turns' rejection',
        start.Orderly server (past ++ [.read data]) turns' rejection' := by
    have noneCloses :
        ∀ front turn back, turns ++ new = front ++ turn :: back →
          turn.keepAlive ≠ false := by
      intro front turn back cut ends
      rcases lastOnly cut ends with ⟨-, -, ⟨impl, accepted⟩, errno⟩
      rcases rejects with ⟨failure, limit, stopped⟩ | ⟨name, other⟩
      · rw [accepted] at stopped
        cases stopped
      · simp [other] at errno
    rcases ended with ⟨reason, ended⟩
    rw [ended] at stepped
    cases made : errorResponse J status with
    | error exception =>
        refine ⟨turns ++ new, none, unrejected ?_ ?_⟩
        · simp [stepped, afterExecute, made]
        · simp [stepped, afterExecute, made, Session.live]
    | ok reply =>
        refine
          ⟨turns ++ new, some reply,
            { log := ?_
              answers := answersAll
              closes := fun front turn back cut ends =>
                absurd ends (noneCloses front turn back cut)
              rejects := ?_
              proceeds := ?_ }⟩
        · simp [stepped, afterExecute, made, Session.closeConn_log,
            Session.send_log, sessionLog]
        · rintro reply' ⟨⟩
          refine ⟨status, past, data, [], code, made, rfl, ?_⟩
          rw [conn_eq]
          exact rejects
        · simp [stepped, afterExecute, made, Session.closeConn_live]
  cases read : (conn.parser.reads J data).1 with
  | error stop =>
      cases stop with
      | failed failure headerLimitHit =>
          refine rejected ?_ (Or.inl ⟨failure, headerLimitHit, read⟩)
            ⟨failure, congrArg (conn.parser.ending data) read⟩
          cases headerLimitHit <;> simp
      | escaped exception =>
          rw [read] at stepped
          refine ⟨turns ++ new, none, unrejected ?_ ?_⟩
          · simp [stepped, HttpParser.ending, afterExecute]
          · simp [stepped, HttpParser.ending, afterExecute, Session.live]
  | ok impl =>
      by_cases fine : (llhttp.execute conn.parser.state data).errno = .ok
      · rw [read] at stepped
        refine ⟨turns ++ new, none, unrejected ?_ ?_⟩
        · simp only [stepped, HttpParser.ending, fine, ↓reduceIte,
            afterExecute]
          split_ifs
          · exact Session.closeConn_log _
          · rfl
        · intro open_ turn member
          by_contra ends
          rcases List.append_of_mem member with ⟨front, back, cut⟩
          have isLast := (lastOnly cut (by simpa using ends)).2.1
          have shouldClose : session.shouldClose = true := by
            rw [closing, ← delivered, List.getLast?_map, isLast]
            simpa [Turn.delivery] using ends
          simp [stepped, HttpParser.ending, fine, afterExecute, shouldClose,
            Session.closeConn_live] at open_
      · have other :
            ∃ name,
              (llhttp.execute conn.parser.state data).errno =
                .other name := by
          cases errno : (llhttp.execute conn.parser.state data).errno with
          | ok => exact absurd errno fine
          | pausedUpgrade => exact absurd errno noPause
          | closedConnection => exact absurd errno notClosed
          | other name => exact ⟨name, rfl⟩
        refine rejected (Or.inl rfl) (Or.inr other) ?_
        simp [read, HttpParser.ending, fine]

/-- A connection that has logged nothing yet stays orderly. -/
theorem orderly_run
    (closes : llhttp.Closes) {server : Server J A}
    {start : Conn llhttp J A} (nothing : start.session.log = [])
    {events : List (Event A)}
    (serves : Runs.Along (step server) (Serves server) start events) :
    ∃ turns rejection, start.Orderly server events turns rejection := by
  apply
    Runs.history_run
      (fun events => ∃ turns rejection,
        start.Orderly server events turns rejection) _ _ serves
  · exact
      ⟨[], none,
        { log := nothing
          answers := by simp
          closes := by simp
          rejects := by simp
          proceeds := by simp }⟩
  · rintro past event ⟨turns, rejection, orderly⟩ condition
    by_cases read :
        (start.run server past).session.live = true ∧
          ∃ data, event = .read data
    · rcases read with ⟨live, data, rfl⟩
      exact orderly.read closes live condition
    · exact
        ⟨turns, rejection,
          orderly.quiet fun live data same => read ⟨live, data, same⟩⟩

/--
The responses of a connection: each request delivered gets one, in order,
and an error response comes last, for bytes that are malformed or too large
only, and never behind a response that says `Connection: close`.
-/
theorem one_response_per_request
    (closes : llhttp.Closes) (server : Server J A) (app : A)
    (events : List (Event A))
    (serves :
      Runs.Along (step server) (Serves server)
        (Conn.new llhttp app : Conn llhttp J A) events) :
    ∃ turns rejection,
      (Conn.new llhttp app : Conn llhttp J A).Orderly server events turns
        rejection :=
  orderly_run closes rfl serves

end Conn

/-! ## Two connections -/

/-- A server with the route `GET /`, on a kernel that takes everything. -/
def helloServer : Server FlatJson Unit where
  setup := helloSetup
  callbacks := helloCallbacks
  memory _ := 200
  kernel _ := .takes 65536

/-- A connection to it. -/
def helloConn : Conn bodilessRequests.llhttp FlatJson Unit :=
  Conn.new bodilessRequests.llhttp ()

/-- Two pipelined requests, the first one cut in two, and the end. -/
def helloReads : List (Conn.Event Unit) :=
  [.read (ascii "GET / HT"),
    .read (ascii "TP/1.1\r\n\r\nGET /a HTTP/1.0\r\n\r\n"), .hangUp]

theorem one_response_per_request_helloReads :
    ∃ turns rejection,
      helloConn.Orderly helloServer helloReads turns rejection := by
  refine
    Conn.one_response_per_request bodilessRequests_closes helloServer ()
      helloReads ⟨?_, ?_, trivial, trivial⟩
  · intro live
    exact ⟨by decide +kernel, by decide +kernel, by decide +kernel⟩
  · intro live
    exact ⟨by decide +kernel, by decide +kernel, by decide +kernel⟩

/-- A `CONNECT` request, which is answered. -/
def connectReads : List (Conn.Event Unit) :=
  [.read (ascii "CONNECT a:443 HTTP/1.1\r\n\r\n")]

/-- Nothing is wrong with the request. -/
theorem not_rejects_connect :
    ¬ helloConn.parser.Rejects FlatJson
      (ascii "CONNECT a:443 HTTP/1.1\r\n\r\n") := by
  rintro (⟨failure, headerLimitHit, stopped⟩ | ⟨name, other⟩)
  · have accepted :
        (helloConn.parser.reads FlatJson
          (ascii "CONNECT a:443 HTTP/1.1\r\n\r\n")).1.isOk = true := by
      decide +kernel
    rw [stopped] at accepted
    cases accepted
  · have paused :
        (bodilessRequests.llhttp.execute helloConn.parser.state
          (ascii "CONNECT a:443 HTTP/1.1\r\n\r\n")).errno =
            .pausedUpgrade := by
      decide +kernel
    rw [paused] at other
    cases other

/-- A second response is sent, although nothing follows the request. -/
theorem second_response_connectReads :
    ¬ ∃ turns rejection,
      helloConn.Orderly helloServer connectReads turns rejection := by
  rintro ⟨turns, rejection, orderly⟩
  have three :
      (helloConn.run helloServer connectReads).session.log.length = 3 := by
    decide +kernel
  rw [orderly.log, List.length_append, Turn.length_flatMap_entries,
    List.length_map] at three
  cases rejection with
  | none =>
      simp at three
      omega
  | some reply =>
      obtain ⟨status, past, data, future, -, -, cut, rejects⟩ :=
        orderly.rejects reply rfl
      obtain ⟨rfl, same⟩ : past = [] ∧ connectReads = .read data :: future := by
        cases past with
        | nil => exact ⟨rfl, cut⟩
        | cons first past =>
            have short := congrArg List.length cut
            simp [connectReads] at short
      rcases List.cons.inj same with ⟨equal, -⟩
      obtain rfl := Conn.Event.read.inj equal
      exact not_rejects_connect rejects

end PlusWeb
