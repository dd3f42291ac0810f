import PlusWeb.DeliveredRequests
import PlusWeb.ResponseFraming

/-!
# What a peer gets

On every run of a connection, whatever the handlers, the kernel and the other
connections do, the log is made of requests with their responses, at most one
request without (its handler threw), and at most one error response at the
end; and the bytes that the kernel has taken are the first of those of the
responses, in the order of the log.  So a peer receives a beginning of the
answers to a beginning of its own requests.

The connection stays open exactly as long as every read is accepted, every
handler returns, no write fails, the last request of each read keeps it
alive, and neither side ends it; so long, all requests received are answered
and nothing of an answer is lost.
-/

namespace PlusWeb

variable {J A : Type} {llhttp : Llhttp}

/-! ## The bytes on the wire -/

namespace Session

/-- The bytes of all responses, as they are handed to `uv_write`. -/
def offered (session : Session J A) : StdString :=
  session.responses.flatMap fun response => buffers response.1 response.2

/--
What the kernel has taken and what is queued are the first of the bytes
offered, and all of them while the connection is open.
-/
structure Wired (session : Session J A) : Prop where
  early :
    session.stream.accepted ++ session.stream.queue <+: session.offered
  handed : session.Handed

theorem offered_note
    (request : HttpRequest J) (keepAlive : Bool) (session : Session J A) :
    (session.note (.delivered request keepAlive)).offered =
      session.offered := by
  rw [offered, responses, note, List.filterMap_append]
  exact congrArg _ (List.append_nil _)

theorem offered_send
    (kernel : Nat → KernelAnswer) (head body : StdString)
    (session : Session J A) :
    (session.send kernel head body).offered =
      session.offered ++ buffers head body := by
  rw [offered, send_responses, List.flatMap_append]
  simp [offered]

theorem send_terminated
    (kernel : Nat → KernelAnswer) (head body : StdString)
    (session : Session J A) :
    (session.send kernel head body).terminated = session.terminated := by
  unfold send
  dsimp only
  split_ifs
  · rfl
  · split
    · simp only [closeConn]
      split_ifs
      rfl
    · rfl

theorem Wired.closeConn {session : Session J A} (wired : session.Wired) :
    session.closeConn.Wired := by
  refine ⟨?_, handed_closeConn session⟩
  rw [offered, closeConn_responses, ← offered]
  unfold Session.closeConn
  split_ifs
  · exact wired.early
  · refine List.IsPrefix.trans ?_ wired.early
    simp [Stream.close]

theorem Wired.send
    {session : Session J A} (wired : session.Wired)
    (kernel : Nat → KernelAnswer) (head body : StdString) :
    (session.send kernel head body).Wired := by
  have handed := wired.handed.send kernel head body
  refine ⟨?_, handed⟩
  cases isOpen : (session.send kernel head body).closing with
  | false => exact (handed isOpen).symm ▸ List.prefix_rfl
  | true =>
      -- The stream is as it was, but for what was queued.
      have shorter :
          (session.send kernel head body).stream.accepted ++
              (session.send kernel head body).stream.queue <+:
            session.stream.accepted ++ session.stream.queue := by
        cases closing : session.closing with
        | true => simp [Session.send, note, closing]
        | false =>
            cases answer : kernel session.stream.writes with
            | fails =>
                simp [Session.send, note, closing, answer,
                  Session.closeConn, Stream.close]
            | takes room =>
                simp [Session.send, note, closing, answer] at isOpen
      rw [offered_send]
      exact (shorter.trans wired.early).trans (List.prefix_append _ _)

end Session

variable [Json J]

namespace Server

open Session

theorem onRequest_wired
    (server : Server J A) (request : HttpRequest J) (keepAlive : Bool) :
    (server.onRequest request keepAlive).Preserves Session.Wired := by
  intro session wired
  have noted : ((session.note (.delivered request keepAlive)).keep
      (server.serve request keepAlive
        (session.note (.delivered request keepAlive)))).Wired := by
    constructor
    · have same := session.offered_note request keepAlive
      exact wired.early.trans (same ▸ List.prefix_rfl)
    · exact wired.handed.note request keepAlive
  cases replied :
      (server.serve request keepAlive
        (session.note (.delivered request keepAlive))).reply with
  | error exception =>
      rw [onRequest_error replied]
      exact noted
  | ok reply =>
      rw [onRequest_ok replied]
      exact noted.send server.kernel reply.1 reply.2

/-- `handleRequest` ends in an exception on the request. -/
def Throws
    (server : Server J A) (delivery : HttpRequest J × Bool) : Prop :=
  ∃ memory shouldClose app exception,
    (handleRequest server.setup server.callbacks memory delivery.1
        delivery.2 shouldClose app).reply = .error exception

/-- The calls of one read: turns, and the request of a call that throws. -/
theorem each_log
    (server : Server J A) (requests : List (HttpRequest J × Bool))
    (session : Session J A) :
    ∃ (turns : List (Turn J)) (failing : Option (HttpRequest J × Bool)),
      (∀ turn ∈ turns, turn.Answers server) ∧
        (server.onRequest.each requests session).2.log =
          session.log ++ turns.flatMap Turn.entries ++
            failing.toList.map (fun delivery =>
              .delivered delivery.1 delivery.2) ∧
          (∀ delivery, failing = some delivery → server.Throws delivery) ∧
            ((server.onRequest.each requests session).1 = .returned →
              failing = none) := by
  induction requests generalizing session with
  | nil =>
      refine ⟨[], none, by simp, ?_, by simp, fun _ => rfl⟩
      simp [RequestHandler.each, Action.skip]
  | cons delivery requests induction =>
      rcases delivery with ⟨request, keepAlive⟩
      simp only [RequestHandler.each, Action.seq]
      cases called : server.onRequest request keepAlive session with
      | mk outcome middle =>
          cases outcome with
          | returned =>
              obtain ⟨turn, -, answers, log, -⟩ :=
                server.onRequest_turn called
              obtain ⟨turns, failing, all, log', throws, returned⟩ :=
                induction middle
              refine ⟨turn :: turns, failing, ?_, ?_, throws, returned⟩
              · exact List.forall_mem_cons.mpr ⟨answers, all⟩
              · simp only [log', log, List.flatMap_cons, List.append_assoc]
          | threw exception =>
              cases replied :
                  (server.serve request keepAlive
                    (session.note (.delivered request keepAlive))).reply with
              | ok reply =>
                  rw [onRequest_ok replied] at called
                  cases called
              | error exception' =>
                  rw [onRequest_error replied] at called
                  obtain ⟨-, rfl⟩ := Prod.mk.inj called
                  refine
                    ⟨[], some (request, keepAlive), by simp, ?_, ?_,
                      fun none => by cases none⟩
                  · simp [Session.note, Session.keep]
                  · rintro delivery ⟨⟩
                    exact ⟨_, _, _, exception', replied⟩

end Server

/-- A read is refused with 400 or 431. -/
theorem HttpParser.ends_failed
    {parser : HttpParser llhttp} {data : StdString}
    {outcome : Outcome CxxException} {status : Nat} {reason : StdString}
    (failed : parser.ends J data outcome = .failed status reason) :
    status = 400 ∨ status = 431 := by
  have ending {result : Except Stop Impl}
      (ended : parser.ending data result = .failed status reason) :
      status = 400 ∨ status = 431 := by
    cases result with
    | ok impl =>
        simp only [HttpParser.ending] at ended
        split_ifs at ended
        exact Or.inl (Executed.failed.inj ended).1.symm
    | error stop =>
        cases stop with
        | escaped exception => cases ended
        | failed failure headerLimitHit =>
            have own := (Executed.failed.inj ended).1
            cases headerLimitHit with
            | true => exact Or.inr own.symm
            | false => exact Or.inl own.symm
  cases outcome with
  | returned => exact ending failed
  | threw exception => exact ending failed

namespace Conn

/-! ## The log -/

/--
The log of a connection: requests with their responses, a request whose
handler threw, an error response; and how much of it is on the wire.
-/
structure Transcript
    (server : Server J A) (conn : Conn llhttp J A) (turns : List (Turn J))
    (failing : Option (HttpRequest J × Bool))
    (rejection : Option StdString) : Prop where
  log : conn.session.log =
    turns.flatMap Turn.entries ++
        failing.toList.map (fun delivery =>
          .delivered delivery.1 delivery.2) ++
      rejection.toList.map (.sent · [])
  answers : ∀ turn ∈ turns, turn.Answers server
  throws : ∀ delivery, failing = some delivery → server.Throws delivery
  rejects : ∀ reply, rejection = some reply →
    ∃ status : Nat, (status = 400 ∨ status = 431) ∧
      errorResponse J status = .ok reply
  wired : conn.session.Wired
  level : conn.session.live = true → failing = none ∧ rejection = none

theorem transcript_new (server : Server J A) (app : A) :
    (Conn.new llhttp app : Conn llhttp J A).Transcript server [] none none
    where
  log := rfl
  answers := by simp
  throws := by simp
  rejects := by simp
  wired := ⟨List.prefix_rfl, fun _ => rfl⟩
  level _ := ⟨rfl, rfl⟩

/--
The end of a read: the log gets an error response if the read is refused,
and then the connection is not open any more.
-/
theorem afterExecute_log
    (server : Server J A) (parser : HttpParser llhttp)
    {executed : Executed llhttp}
    (refused : ∀ status reason, executed = .failed status reason →
      status = 400 ∨ status = 431)
    (session : Session J A) :
    ∃ rejection : Option StdString,
      (afterExecute server parser (executed, session)).session.log =
          session.log ++ rejection.toList.map (.sent · []) ∧
        (∀ reply, rejection = some reply →
          ∃ status : Nat, (status = 400 ∨ status = 431) ∧
            errorResponse J status = .ok reply) ∧
          ((afterExecute server parser (executed, session)).session.live =
            true → rejection = none) := by
  cases executed with
  | accepted next =>
      refine ⟨none, ?_, by simp, fun _ => rfl⟩
      simp only [afterExecute, Option.toList_none, List.map_nil,
        List.append_nil]
      split_ifs
      · exact session.closeConn_log
      · rfl
  | escaped exception =>
      exact ⟨none, by simp [afterExecute], by simp, fun _ => rfl⟩
  | failed status reason =>
      cases made : errorResponse J status with
      | error exception =>
          refine ⟨none, ?_, by simp, fun _ => rfl⟩
          simp [afterExecute, made]
      | ok reply =>
          refine ⟨some reply, ?_, ?_, ?_⟩
          · simp only [afterExecute, made, Option.toList_some,
              List.map_singleton]
            rw [Session.closeConn_log]
            exact session.send_log server.kernel reply []
          · intro other same
            obtain rfl := Option.some.inj same
            exact ⟨status, refused status reason rfl, made⟩
          · simp only [afterExecute, made, Session.closeConn_live]
            exact fun open_ => by cases open_

theorem afterExecute_wired
    (server : Server J A) (parser : HttpParser llhttp)
    (executed : Executed llhttp) {session : Session J A}
    (wired : session.Wired) :
    (afterExecute server parser (executed, session)).session.Wired := by
  cases executed with
  | accepted next =>
      simp only [afterExecute]
      split_ifs
      · exact wired.closeConn
      · exact wired
  | escaped exception => exact ⟨wired.early, wired.handed⟩
  | failed status reason =>
      cases made : errorResponse J status with
      | error exception =>
          simp only [afterExecute, made]
          exact ⟨wired.early, wired.handed⟩
      | ok reply =>
          have sent := wired.send server.kernel reply []
          simp only [afterExecute, made]
          exact Session.Wired.closeConn ⟨sent.early, sent.handed⟩

/-- A read of an open connection. -/
theorem Transcript.read
    {server : Server J A} {conn : Conn llhttp J A} {turns : List (Turn J)}
    {failing : Option (HttpRequest J × Bool)} {rejection : Option StdString}
    (transcript : conn.Transcript server turns failing rejection)
    (live : conn.session.live = true) (data : StdString) :
    ∃ turns' failing' rejection',
      (conn.onRead server data).Transcript server turns' failing'
        rejection' := by
  obtain ⟨rfl, rfl⟩ := transcript.level live
  obtain ⟨new, failing, all, log, throws, returned⟩ :=
    server.each_log (conn.parser.delivers J data)
      { conn.session with shouldClose := false }
  have wired :=
    RequestHandler.preserves_each server.onRequest_wired
      (conn.parser.delivers J data)
      { conn.session with shouldClose := false }
      ⟨transcript.wired.early, transcript.wired.handed⟩
  rcases called :
      server.onRequest.each (conn.parser.delivers J data)
        { conn.session with shouldClose := false } with ⟨outcome, after⟩
  rw [called] at log wired returned
  have read :
      conn.onRead server data =
        afterExecute server conn.parser
          (conn.parser.ends J data outcome, after) := by
    rw [onRead, HttpParser.execute_ends, called]
  have refused (status : Nat) (reason : StdString)
      (failed :
        conn.parser.ends J data outcome = .failed status reason) :
      status = 400 ∨ status = 431 :=
    HttpParser.ends_failed failed
  obtain ⟨rejection, log', rejects, stays⟩ :=
    afterExecute_log server conn.parser refused after
  rw [← read] at log' stays
  refine ⟨turns ++ new, failing, rejection, ?_⟩
  refine
    { log := ?_
      answers := List.forall_mem_append.mpr ⟨transcript.answers, all⟩
      throws := throws
      rejects := rejects
      wired := read ▸ afterExecute_wired server conn.parser _ wired
      level := fun open_ => ⟨?_, stays open_⟩ }
  · rw [log']
    dsimp only at log
    simp only [log, transcript.log, List.flatMap_append, Option.toList_none,
      List.map_nil, List.append_nil, List.append_assoc]
  · rw [read] at open_
    have accepted := accepted_of_live open_
    exact returned (HttpParser.returned_of_ends accepted)

/-- Every event. -/
theorem Transcript.step
    {server : Server J A} {conn : Conn llhttp J A} {turns : List (Turn J)}
    {failing : Option (HttpRequest J × Bool)} {rejection : Option StdString}
    (transcript : conn.Transcript server turns failing rejection)
    (event : Event A) :
    ∃ turns' failing' rejection',
      (conn.step server event).Transcript server turns' failing'
        rejection' := by
  by_cases read : conn.session.live = true ∧ ∃ data, event = .read data
  · rcases read with ⟨live, data, rfl⟩
    have stepped :
        conn.step server (.read data) = conn.onRead server data := by
      simp [Conn.step, live]
    rw [stepped]
    exact transcript.read live data
  · have quiet (live : conn.session.live = true) (data : StdString) :
        event ≠ .read data :=
      fun same => read ⟨live, data, same⟩
    obtain ⟨log, stays⟩ := step_quiet server conn quiet
    refine
      ⟨turns, failing, rejection,
        { log := log.trans transcript.log
          answers := transcript.answers
          throws := transcript.throws
          rejects := transcript.rejects
          wired := ?_
          level := fun open_ => transcript.level (stays open_) }⟩
    cases live : conn.session.live with
    | false =>
        rw [step_of_not_live live]
        exact transcript.wired
    | true =>
        cases event with
        | read data => exact absurd rfl (quiet live data)
        | hangUp =>
            simp only [Conn.step, live, if_true]
            exact transcript.wired.closeConn
        | writeFailed =>
            simp only [Conn.step, live, if_true]
            exact transcript.wired.closeConn
        | stop =>
            simp only [Conn.step, live, if_true]
            exact transcript.wired.closeConn
        | writable room =>
            simp only [Conn.step, live, if_true]
            have all := Stream.flush_all room conn.session.stream
            exact
              ⟨by rw [all]; exact transcript.wired.early,
                fun open_ => all.trans (transcript.wired.handed open_)⟩
        | elsewhere app =>
            simp only [Conn.step, live, if_true]
            exact ⟨transcript.wired.early, transcript.wired.handed⟩

/-- Every run has a transcript. -/
theorem transcript_run
    (server : Server J A) (app : A) (events : List (Event A)) :
    ∃ turns failing rejection,
      ((Conn.new llhttp app : Conn llhttp J A).run server
        events).Transcript server turns failing rejection := by
  have keeps (conn : Conn llhttp J A) (event : Event A)
      (before : ∃ turns failing rejection,
        conn.Transcript server turns failing rejection) :
      ∃ turns failing rejection,
        (conn.step server event).Transcript server turns failing
          rejection := by
    rcases before with ⟨turns, failing, rejection, transcript⟩
    exact transcript.step event
  exact
    Runs.invariant_always keeps
      ⟨[], none, none, transcript_new server app⟩ events

/-- The requests of a transcript. -/
theorem Transcript.deliveries
    {server : Server J A} {conn : Conn llhttp J A} {turns : List (Turn J)}
    {failing : Option (HttpRequest J × Bool)} {rejection : Option StdString}
    (transcript : conn.Transcript server turns failing rejection) :
    conn.session.deliveries = turns.map Turn.delivery ++ failing.toList := by
  rw [Session.deliveries, transcript.log, List.filterMap_append,
    List.filterMap_append, filterMap_delivery]
  cases failing <;> cases rejection <;> simp [LogEntry.delivery?]

/-- The bytes of its responses. -/
theorem Transcript.offered
    {server : Server J A} {conn : Conn llhttp J A} {turns : List (Turn J)}
    {failing : Option (HttpRequest J × Bool)} {rejection : Option StdString}
    (transcript : conn.Transcript server turns failing rejection) :
    conn.session.offered =
      (turns.flatMap fun turn => Session.buffers turn.head turn.body) ++
        rejection.toList.flatMap (Session.buffers · []) := by
  rw [Session.offered, Session.responses, transcript.log,
    List.filterMap_append, List.filterMap_append, filterMap_entries]
  cases failing <;> cases rejection <;>
    simp [LogEntry.response, List.flatMap_map]

/-- The requests received do not depend on how the bytes were cut. -/
theorem deliveries_reads
    (assumed : llhttp.Assumed) (events : List (Event A)) :
    deliveries J llhttp kMaxHeaderBytes (reads events) =
      deliveries J llhttp kMaxHeaderBytes [(reads events).flatten] :=
  deliveries_independent assumed kMaxHeaderBytes (by simp)

/--
Every run, with any handlers and on any kernel: the requests logged are
the first of those in the bytes received, each with its response, up to one
whose handler threw; an error response comes last; and the bytes that the
kernel has taken are the first of the bytes of these responses.
-/
theorem transcript_of_stream
    (assumed : llhttp.Assumed) (server : Server J A) (app : A)
    (events : List (Event A)) :
    ∃ turns failing rejection,
      ((Conn.new llhttp app : Conn llhttp J A).run server events).Transcript
          server turns failing rejection ∧
        turns.map Turn.delivery ++ failing.toList <+:
            deliveries J llhttp kMaxHeaderBytes [(reads events).flatten] ∧
          ((Conn.new llhttp app : Conn llhttp J A).run server
                events).session.stream.accepted <+:
            (turns.flatMap fun turn =>
                Session.buffers turn.head turn.body) ++
              rejection.toList.flatMap (Session.buffers · []) := by
  obtain ⟨turns, failing, rejection, transcript⟩ :=
    @transcript_run J A llhttp _ server app events
  refine ⟨turns, failing, rejection, transcript, ?_, ?_⟩
  · rw [← transcript.deliveries, ← deliveries_reads assumed]
    exact (follows_run server app events).early
  · rw [← transcript.offered]
    exact (List.prefix_append _ _).trans transcript.wired.early

/--
Two requests in three pieces, and what comes after the connection is
closed.
-/
theorem transcript_of_stream_helloReads :
    ∃ turns failing rejection,
      ((Conn.new bodilessRequests.llhttp () :
            Conn bodilessRequests.llhttp FlatJson Unit).run helloServer
          helloReads).Transcript helloServer turns failing rejection ∧
        turns.map Turn.delivery ++ failing.toList <+:
            deliveries FlatJson bodilessRequests.llhttp kMaxHeaderBytes
              [(reads helloReads).flatten] ∧
          ((Conn.new bodilessRequests.llhttp () :
                Conn bodilessRequests.llhttp FlatJson Unit).run helloServer
              helloReads).session.stream.accepted <+:
            (turns.flatMap fun turn =>
                Session.buffers turn.head turn.body) ++
              rejection.toList.flatMap (Session.buffers · []) :=
  transcript_of_stream bodilessRequests_assumed helloServer () helloReads

end Conn

/-! ## How long a connection stays open -/

namespace Server

/-- A connection that is being closed stays so. -/
theorem onRequest_closing
    (server : Server J A) (request : HttpRequest J) (keepAlive : Bool) :
    (server.onRequest request keepAlive).Preserves fun session =>
      session.closing = true := by
  intro session closing
  cases replied :
      (server.serve request keepAlive
        (session.note (.delivered request keepAlive))).reply with
  | error exception =>
      rw [onRequest_error replied]
      exact closing
  | ok reply =>
      rw [onRequest_ok replied]
      simp [Session.send, Session.note, Session.keep, closing]

/--
The responses of a read leave the connection open exactly if no write
fails.
-/
theorem each_closing_iff
    (server : Server J A) {requests : List (HttpRequest J × Bool)}
    {session after : Session J A} (isOpen : session.closing = false)
    (returned :
      server.onRequest.each requests session = (.returned, after)) :
    after.closing = false ↔
      ∀ count < requests.length,
        server.kernel (session.stream.writes + count) ≠ .fails := by
  induction requests generalizing session with
  | nil =>
      rcases Prod.mk.inj returned with ⟨-, rfl⟩
      simp [isOpen]
  | cons delivery requests induction =>
      rcases delivery with ⟨request, keepAlive⟩
      simp only [RequestHandler.each, Action.seq] at returned
      cases replied :
          (server.serve request keepAlive
            (session.note (.delivered request keepAlive))).reply with
      | error exception =>
          rw [onRequest_error replied] at returned
          cases returned
      | ok reply =>
          rcases reply with ⟨head, body⟩
          rw [onRequest_ok replied] at returned
          dsimp only at returned
          cases answer : server.kernel session.stream.writes with
          | fails =>
              have stays :=
                RequestHandler.preserves_each server.onRequest_closing
                  requests
                  (((session.note (.delivered request keepAlive)).keep
                    (server.serve request keepAlive
                      (session.note (.delivered request keepAlive)))).send
                        server.kernel head body)
                  (by
                    simp [Session.send, Session.note, Session.keep, answer,
                      Session.closeConn_closing, isOpen])
              rw [returned] at stays
              constructor
              · intro after_open
                rw [stays] at after_open
                cases after_open
              · intro takes
                exact absurd answer (takes 0 (Nat.succ_pos _))
          | takes room =>
              have written := induction (by
                  simp [Session.send, Session.note, Session.keep, answer,
                    isOpen]) returned
              rw [written, List.length_cons, Nat.forall_lt_succ_left]
              simp [Session.send, Session.note, Session.keep, answer,
                isOpen, Stream.offer_writes, Nat.add_right_comm,
                Nat.add_assoc]

/-- No call of the handler ends the program by itself. -/
theorem onRequest_terminated
    (server : Server J A) (request : HttpRequest J) (keepAlive : Bool)
    (terminated : Bool) :
    (server.onRequest request keepAlive).Preserves fun session =>
      session.terminated = terminated := by
  intro session same
  cases replied :
      (server.serve request keepAlive
        (session.note (.delivered request keepAlive))).reply with
  | error exception =>
      rw [onRequest_error replied]
      exact same
  | ok reply =>
      rw [onRequest_ok replied]
      exact (Session.send_terminated _ _ _ _).trans same

end Server

namespace Conn

/--
The event leaves an open connection open: a read is accepted, its
handlers return, its last request keeps the connection alive, and no write of
a response fails.
-/
def KeepsOpen (server : Server J A) (conn : Conn llhttp J A) :
    Event A → Prop
  | .read data =>
      (∃ parser, conn.parser.ends J data .returned = .accepted parser) ∧
        (server.onRequest.each (conn.parser.delivers J data)
          { conn.session with shouldClose := false }).1 = .returned ∧
          (∀ delivery,
            (conn.parser.delivers J data).getLast? = some delivery →
              delivery.2 = true) ∧
            ∀ count < (conn.parser.delivers J data).length,
              server.kernel (conn.session.stream.writes + count) ≠ .fails
  | .writable _ => True
  | .elsewhere _ => True
  | .hangUp => False
  | .writeFailed => False
  | .stop => False

/--
A read of an open connection, if the parser takes the bytes and each
handler returns.
-/
theorem onRead_live_iff
    {server : Server J A} {conn : Conn llhttp J A} {data : StdString}
    {parser : HttpParser llhttp} {after : Session J A}
    (live : conn.session.live = true)
    (accepted : conn.parser.ends J data .returned = .accepted parser)
    (called :
      server.onRequest.each (conn.parser.delivers J data)
          { conn.session with shouldClose := false } =
        (.returned, after)) :
    (conn.onRead server data).session.live = true ↔
      (∀ delivery,
          (conn.parser.delivers J data).getLast? = some delivery →
            delivery.2 = true) ∧
        ∀ count < (conn.parser.delivers J data).length,
          server.kernel (conn.session.stream.writes + count) ≠ .fails := by
  obtain ⟨isOpen, running⟩ :
      conn.session.closing = false ∧ conn.session.terminated = false := by
    simpa [Session.live] using live
  have written :
      after.closing = false ↔
        ∀ count < (conn.parser.delivers J data).length,
          server.kernel (conn.session.stream.writes + count) ≠ .fails := by
    apply server.each_closing_iff _ called
    exact isOpen
  have kept : after.terminated = false := by
    have same :=
      RequestHandler.preserves_each
        (fun request keepAlive =>
          server.onRequest_terminated request keepAlive false)
        (conn.parser.delivers J data)
        { conn.session with shouldClose := false } running
    rwa [called] at same
  obtain ⟨-, -, -, -, last⟩ := server.each_turns called
  have alive :
      after.shouldClose = false ↔
        ∀ delivery,
          (conn.parser.delivers J data).getLast? = some delivery →
            delivery.2 = true := by
    rw [last]
    cases (conn.parser.delivers J data).getLast? <;> simp
  rw [onRead, HttpParser.execute_ends, called]
  dsimp only
  rw [accepted, ← alive, ← written]
  simp only [afterExecute]
  cases closes : after.shouldClose with
  | true => simp [Session.closeConn_live]
  | false => simp [Session.live, kept]

/-- Every event of an open connection. -/
theorem step_live_iff
    (server : Server J A) {conn : Conn llhttp J A}
    (live : conn.session.live = true) (event : Event A) :
    (conn.step server event).session.live = true ↔
      conn.KeepsOpen server event := by
  cases event with
  | read data =>
      have stepped :
          conn.step server (.read data) = conn.onRead server data := by
        simp [Conn.step, live]
      rw [stepped]
      rcases called :
          server.onRequest.each (conn.parser.delivers J data)
            { conn.session with shouldClose := false } with
        ⟨outcome, after⟩
      constructor
      · intro stays
        have read := stays
        rw [onRead, HttpParser.execute_ends, called] at read
        have accepted := accepted_of_live read
        have returned := HttpParser.returned_of_ends accepted
        subst returned
        refine ⟨⟨_, accepted⟩, by rw [called], ?_⟩
        exact (onRead_live_iff live accepted called).mp stays
      · rintro ⟨⟨parser, accepted⟩, returned, written⟩
        rw [called] at returned
        dsimp only at returned
        subst returned
        exact (onRead_live_iff live accepted called).mpr written
  | hangUp =>
      simp [Conn.step, live, KeepsOpen, closeConn, Session.closeConn_live]
  | writeFailed =>
      simp [Conn.step, live, KeepsOpen, closeConn, Session.closeConn_live]
  | stop =>
      simp [Conn.step, live, KeepsOpen, closeConn, Session.closeConn_live]
  | writable room =>
      rw [Session.live] at live
      simp [Conn.step, KeepsOpen, Session.live, live]
  | elsewhere app =>
      rw [Session.live] at live
      simp [Conn.step, KeepsOpen, Session.live, live]

/-- A connection is open exactly if each event left it open. -/
theorem live_iff
    (server : Server J A) (app : A) (events : List (Event A)) :
    ((Conn.new llhttp app : Conn llhttp J A).run server
          events).session.live = true ↔
      Runs.Along (step server) (KeepsOpen server)
        (Conn.new llhttp app : Conn llhttp J A) events := by
  induction events using List.reverseRecOn with
  | nil => exact ⟨fun _ => trivial, fun _ => rfl⟩
  | append_singleton past event induction =>
      rw [Runs.along_append, ← induction, run, Runs.run_concat]
      change
        (Conn.step server
            ((Conn.new llhttp app : Conn llhttp J A).run server past)
            event).session.live = true ↔
          _ ∧ KeepsOpen server
            ((Conn.new llhttp app : Conn llhttp J A).run server past)
            event ∧ True
      cases live :
          ((Conn.new llhttp app : Conn llhttp J A).run server
            past).session.live with
      | false => rw [step_of_not_live live, live]; simp
      | true => rw [step_live_iff server live event]; simp

/--
Every run: a connection is open exactly if each event left it open, and
then all requests received are answered, and the bytes that the kernel has
taken and those that are queued are all bytes of the answers.
-/
theorem all_answered_while_open
    (assumed : llhttp.Assumed) (server : Server J A) (app : A)
    (events : List (Event A)) :
    let conn : Conn llhttp J A := (Conn.new llhttp app).run server events
    (conn.session.live = true ↔
        Runs.Along (step server) (KeepsOpen server)
          (Conn.new llhttp app : Conn llhttp J A) events) ∧
      (conn.session.live = true →
        ∃ turns : List (Turn J),
          turns.map Turn.delivery =
              deliveries J llhttp kMaxHeaderBytes
                [(reads events).flatten] ∧
            (∀ turn ∈ turns, turn.Answers server) ∧
              conn.session.stream.accepted ++ conn.session.stream.queue =
                turns.flatMap fun turn =>
                  Session.buffers turn.head turn.body) := by
  refine ⟨live_iff server app events, fun live => ?_⟩
  obtain ⟨turns, failing, rejection, transcript⟩ :=
    @transcript_run J A llhttp _ server app events
  have delivered := transcript.deliveries
  have written := transcript.offered
  obtain ⟨rfl, rfl⟩ := transcript.level live
  simp only [Option.toList_none, List.append_nil,
    List.flatMap_nil] at delivered written
  have isOpen :
      ((Conn.new llhttp app : Conn llhttp J A).run server
        events).session.closing = false := by
    simp only [Session.live, Bool.and_eq_true, Bool.not_eq_true'] at live
    exact live.1
  refine ⟨turns, ?_, transcript.answers, ?_⟩
  · rw [← delivered, ← deliveries_reads assumed]
    exact (follows_run server app events).all live
  · rw [← written]
    exact transcript.wired.handed isOpen

/-- A request in two pieces, and room for its answer. -/
def keptReads : List (Event Unit) :=
  [.read (ascii "GET / HT"), .read (ascii "TP/1.1\r\n\r\n"), .writable 10]

theorem all_answered_while_open_keptReads :
    Runs.Along (step helloServer) (KeepsOpen helloServer)
        (Conn.new bodilessRequests.llhttp () :
          Conn bodilessRequests.llhttp FlatJson Unit) keptReads ∧
      ∃ turns : List (Turn FlatJson),
        turns.map Turn.delivery =
            deliveries FlatJson bodilessRequests.llhttp kMaxHeaderBytes
              [(reads keptReads).flatten] ∧
          (∀ turn ∈ turns, turn.Answers helloServer) ∧
            ((Conn.new bodilessRequests.llhttp () :
                Conn bodilessRequests.llhttp FlatJson Unit).run helloServer
                keptReads).session.stream.accepted ++
              ((Conn.new bodilessRequests.llhttp () :
                Conn bodilessRequests.llhttp FlatJson Unit).run helloServer
                keptReads).session.stream.queue =
              turns.flatMap fun turn =>
                Session.buffers turn.head turn.body := by
  have live :
      ((Conn.new bodilessRequests.llhttp () :
        Conn bodilessRequests.llhttp FlatJson Unit).run helloServer
        keptReads).session.live = true := by
    decide +kernel
  obtain ⟨opens, answered⟩ :=
    all_answered_while_open bodilessRequests_assumed helloServer ()
      keptReads
  exact ⟨opens.mp live, answered live⟩

end Conn

end PlusWeb
