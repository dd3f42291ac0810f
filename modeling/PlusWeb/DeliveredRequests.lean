import PlusWeb.ConnInterleaving

/-!
# The requests of a connection

What the handler is given on a connection are the requests in the bytes
received on it: the first of them in any case, and all of them while the
connection is open.  It matters neither how the bytes are cut into reads, nor
what the other connections do between them, nor what the handlers do.

A parser that has taken all reads so far is where a parser that only records
the requests would be; the first read that it does not take ends the
connection.  If what the server promises of its handlers holds, the responses
on the connection answer these requests, each once and in their order.
-/

namespace PlusWeb

variable {J A : Type} {llhttp : Llhttp}

/-- The request, in an entry that is one. -/
def LogEntry.delivery? : LogEntry J → Option (HttpRequest J × Bool)
  | .delivered request keepAlive => some (request, keepAlive)
  | .sent _ _ => none

/-- The requests given to the handler, with their keep-alive flags. -/
def Session.deliveries (session : Session J A) :
    List (HttpRequest J × Bool) :=
  session.log.filterMap LogEntry.delivery?

namespace Session

theorem closeConn_deliveries (session : Session J A) :
    session.closeConn.deliveries = session.deliveries := by
  rw [deliveries, closeConn_log, deliveries]

theorem send_deliveries
    (kernel : Nat → KernelAnswer) (head body : StdString)
    (session : Session J A) :
    (session.send kernel head body).deliveries = session.deliveries := by
  rw [deliveries, send_log, List.filterMap_append]
  exact List.append_nil _

theorem note_deliveries
    (request : HttpRequest J) (keepAlive : Bool) (session : Session J A) :
    (session.note (.delivered request keepAlive)).deliveries =
      session.deliveries ++ [(request, keepAlive)] := by
  rw [deliveries, note, List.filterMap_append]
  rfl

end Session

variable [Json J]

namespace Server

/-- A call of the handler is for the request it is given, however it ends. -/
theorem onRequest_deliveries
    (server : Server J A) (request : HttpRequest J) (keepAlive : Bool)
    (session : Session J A) :
    (server.onRequest request keepAlive session).2.deliveries =
      session.deliveries ++ [(request, keepAlive)] := by
  cases replied :
      (server.serve request keepAlive
        (session.note (.delivered request keepAlive))).reply with
  | error exception =>
      rw [onRequest_error replied, ← Session.note_deliveries]
      rfl
  | ok reply =>
      rw [onRequest_ok replied, Session.send_deliveries,
        ← Session.note_deliveries]
      rfl

/--
The calls of one read are for the first of the requests read, and for all
of them if each call returns.
-/
theorem each_deliveries
    (server : Server J A) (requests : List (HttpRequest J × Bool))
    (session : Session J A) :
    ∃ front, front <+: requests ∧
      (server.onRequest.each requests session).2.deliveries =
        session.deliveries ++ front ∧
        ((server.onRequest.each requests session).1 = .returned →
          front = requests) := by
  induction requests generalizing session with
  | nil => exact ⟨[], List.nil_prefix, (List.append_nil _).symm, fun _ => rfl⟩
  | cons delivery requests induction =>
      rcases delivery with ⟨request, keepAlive⟩
      have first := server.onRequest_deliveries request keepAlive session
      simp only [RequestHandler.each, Action.seq]
      cases called : server.onRequest request keepAlive session with
      | mk outcome middle =>
          rw [called] at first
          cases outcome with
          | threw exception =>
              refine ⟨[(request, keepAlive)], ?_, first, fun none => ?_⟩
              · exact ⟨requests, rfl⟩
              · cases none
          | returned =>
              obtain ⟨front, early, later, all⟩ := induction middle
              refine
                ⟨(request, keepAlive) :: front, ?_, ?_, fun returned => ?_⟩
              · exact List.cons_prefix_cons.mpr ⟨rfl, early⟩
              · rw [later, first, List.append_assoc]
                rfl
              · rw [all returned]

end Server

/-! ## The recording parser -/

namespace HttpParser

/-- One more piece of the stream. -/
theorem feed_concat
    {τ : Type} (handler : RequestHandler J τ) (parser : HttpParser llhttp)
    (chunks : List StdString) (data : StdString) (outer : τ) :
    parser.feed handler (chunks ++ [data]) outer =
      match parser.feed handler chunks outer with
      | (.accepted parser, outer) => parser.execute handler data outer
      | stopped => stopped := by
  induction chunks generalizing parser outer with
  | nil =>
      simp only [List.nil_append, feed]
      rcases parser.execute handler data outer with ⟨executed, outer⟩
      cases executed <;> rfl
  | cons chunk chunks induction =>
      simp only [List.cons_append, feed]
      rcases parser.execute handler chunk outer with ⟨executed, outer⟩
      cases executed with
      | accepted parser => exact induction parser outer
      | failed status reason => rfl
      | escaped exception => rfl

/-- A parser that goes on had no call of the handler throw. -/
theorem returned_of_ends
    {parser next : HttpParser llhttp} {data : StdString}
    {outcome : Outcome CxxException}
    (accepted : parser.ends J data outcome = .accepted next) :
    outcome = .returned := by
  cases outcome with
  | returned => rfl
  | threw exception => cases exception <;> cases accepted

omit [Json J] in
/-- The recording handler returns. -/
theorem each_record
    (requests log : List (HttpRequest J × Bool)) :
    record.each requests log = (.returned, log ++ requests) := by
  induction requests generalizing log with
  | nil => simp [RequestHandler.each, Action.skip]
  | cons delivery requests induction =>
      rcases delivery with ⟨request, keepAlive⟩
      simp [RequestHandler.each, Action.seq, record, Action.modify, induction]

end HttpParser

/-- More of a stream has more requests behind those it had. -/
theorem deliveries_concat
    (maxHeaderBytes : Nat) (chunks : List StdString) (data : StdString) :
    deliveries J llhttp maxHeaderBytes chunks <+:
      deliveries J llhttp maxHeaderBytes (chunks ++ [data]) := by
  rw [deliveries, deliveries, HttpParser.feed_concat]
  rcases (HttpParser.new llhttp maxHeaderBytes).feed record chunks
      ([] : List (HttpRequest J × Bool)) with ⟨executed, log⟩
  cases executed with
  | failed status reason => exact List.prefix_rfl
  | escaped exception => exact List.prefix_rfl
  | accepted parser =>
      simp only [HttpParser.execute_ends, HttpParser.each_record]
      exact List.prefix_append _ _

theorem deliveries_mono
    (maxHeaderBytes : Nat) {chunks more : List StdString}
    (early : chunks <+: more) :
    deliveries J llhttp maxHeaderBytes chunks <+:
      deliveries J llhttp maxHeaderBytes more := by
  rcases early with ⟨rest, rfl⟩
  induction rest using List.reverseRecOn with
  | nil => rw [List.append_nil]
  | append_singleton rest data induction =>
      rw [← List.append_assoc]
      exact induction.trans (deliveries_concat maxHeaderBytes _ data)

/-! ## One connection -/

namespace Conn

/-- The bytes of a read. -/
def Event.data? : Event A → Option StdString
  | .read data => some data
  | _ => none

/-- The reads of a connection. -/
def reads (events : List (Event A)) : List StdString :=
  events.filterMap Event.data?

/--
A connection that has been given these reads: the handler was called for
the first of the requests, and while the connection is open for all of them,
with the parser where the recording one is.
-/
structure Follows (conn : Conn llhttp J A) (chunks : List StdString) : Prop
    where
  early : conn.session.deliveries <+:
    deliveries J llhttp kMaxHeaderBytes chunks
  level : conn.session.live = true →
    (HttpParser.new llhttp kMaxHeaderBytes).feed record chunks [] =
      (.accepted conn.parser, conn.session.deliveries)

theorem Follows.all
    {conn : Conn llhttp J A} {chunks : List StdString}
    (follows : conn.Follows chunks) (live : conn.session.live = true) :
    conn.session.deliveries =
      deliveries J llhttp kMaxHeaderBytes chunks := by
  rw [deliveries, follows.level live]

/-- The parser goes on only if it accepted the read. -/
theorem accepted_of_live
    {server : Server J A} {parser : HttpParser llhttp}
    {executed : Executed llhttp} {session : Session J A}
    (live :
      (afterExecute server parser (executed, session)).session.live =
        true) :
    executed = .accepted
      (afterExecute server parser (executed, session)).parser := by
  cases executed with
  | accepted next => rfl
  | escaped exception => simp [afterExecute, Session.live] at live
  | failed status reason =>
      rw [afterExecute] at live
      split at live
      · rw [Session.closeConn_live] at live
        cases live
      · simp [Session.live] at live

theorem afterExecute_deliveries
    (server : Server J A) (parser : HttpParser llhttp)
    (executed : Executed llhttp) (session : Session J A) :
    (afterExecute server parser (executed, session)).session.deliveries =
      session.deliveries := by
  cases executed with
  | accepted next =>
      simp only [afterExecute]
      split_ifs
      · exact session.closeConn_deliveries
      · rfl
  | escaped exception => rfl
  | failed status reason =>
      rw [afterExecute]
      split
      · rw [Session.closeConn_deliveries]
        exact session.send_deliveries server.kernel _ []
      · rfl

/-- A read of an open connection. -/
theorem Follows.read
    {server : Server J A} {conn : Conn llhttp J A} {chunks : List StdString}
    (follows : conn.Follows chunks) (live : conn.session.live = true)
    (data : StdString) :
    (conn.onRead server data).Follows (chunks ++ [data]) := by
  obtain ⟨front, early, log, all⟩ :=
    server.each_deliveries (conn.parser.delivers J data)
      { conn.session with shouldClose := false }
  rcases called :
      server.onRequest.each (conn.parser.delivers J data)
        { conn.session with shouldClose := false } with ⟨outcome, after⟩
  rw [called] at log all
  have read :
      conn.onRead server data =
        afterExecute server conn.parser
          (conn.parser.ends J data outcome, after) := by
    rw [onRead, HttpParser.execute_ends, called]
  have recorded :
      (HttpParser.new llhttp kMaxHeaderBytes).feed record (chunks ++ [data])
          [] =
        (conn.parser.ends J data .returned,
          conn.session.deliveries ++ conn.parser.delivers J data) := by
    rw [HttpParser.feed_concat, follows.level live]
    simp only [HttpParser.execute_ends, HttpParser.each_record]
  have delivered :
      (conn.onRead server data).session.deliveries =
        conn.session.deliveries ++ front := by
    rw [read, afterExecute_deliveries]
    exact log
  refine ⟨?_, fun stays => ?_⟩
  · rw [deliveries, recorded, delivered]
    exact (List.prefix_append_right_inj _).mpr early
  · rw [read] at stays
    have accepted := accepted_of_live stays
    have returned := HttpParser.returned_of_ends accepted
    subst returned
    rw [recorded, delivered, all rfl, accepted, read]

/-- Every event. -/
theorem Follows.step
    {server : Server J A} {conn : Conn llhttp J A} {chunks : List StdString}
    (follows : conn.Follows chunks) (event : Event A) :
    (conn.step server event).Follows
      (chunks ++ event.data?.toList) := by
  by_cases read : conn.session.live = true ∧ ∃ data, event = .read data
  · rcases read with ⟨live, data, rfl⟩
    have stepped :
        conn.step server (.read data) = conn.onRead server data := by
      simp [Conn.step, live]
    rw [stepped]
    exact follows.read live data
  · have quiet (live : conn.session.live = true) (data : StdString) :
        event ≠ .read data :=
      fun same => read ⟨live, data, same⟩
    obtain ⟨log, stays⟩ := step_quiet server conn quiet
    have same : (conn.step server event).session.deliveries =
        conn.session.deliveries := by
      rw [Session.deliveries, log, Session.deliveries]
    constructor
    · rw [same]
      exact
        follows.early.trans
          (deliveries_mono kMaxHeaderBytes (List.prefix_append _ _))
    · intro after
      have live := stays after
      have unread : event.data? = none := by
        cases event with
        | read data => exact absurd rfl (quiet live data)
        | _ => rfl
      have kept : (conn.step server event).parser = conn.parser := by
        cases event with
        | read data => exact absurd rfl (quiet live data)
        | _ => simp [Conn.step, live, closeConn]
      rw [same, kept, unread, Option.toList_none, List.append_nil]
      exact follows.level live

theorem follows_new (app : A) :
    (Conn.new llhttp app : Conn llhttp J A).Follows [] where
  early := List.nil_prefix
  level _ := rfl

/-- Every run. -/
theorem follows_run
    (server : Server J A) (app : A) (events : List (Event A)) :
    ((Conn.new llhttp app : Conn llhttp J A).run server events).Follows
      (reads events) := by
  induction events using List.reverseRecOn with
  | nil => exact follows_new app
  | append_singleton past event induction =>
      have next :
          (Conn.step server
              ((Conn.new llhttp app : Conn llhttp J A).run server past)
              event).Follows
            (reads past ++ event.data?.toList) :=
        induction.step event
      rw [run, Runs.run_concat, reads, List.filterMap_append]
      cases event <;> exact next

end Conn

/-! ## A connection among others -/

namespace Loop

/-- The bytes of a read of the connection. -/
def Event.data? (c : Nat) : Event → Option StdString
  | .read stream data => if stream = c then some data else none
  | _ => none

/-- The bytes received on a connection. -/
def received (c : Nat) (events : List Event) : StdString :=
  (events.filterMap (Event.data? c)).flatten

omit [Json J] in
/-- A connection sees its own reads. -/
theorem reads_view
    (c : Nat) (before after : Loop llhttp A) (event : Event) :
    Conn.reads (before.view c after event) =
      [event].filterMap (Event.data? c) := by
  cases event with
  | read stream data =>
      by_cases own : stream = c
      · simp [view, Conn.reads, Conn.Event.data?, Event.data?, own]
      · simp [view, Conn.reads, Conn.Event.data?, Event.data?, own]
  | connectionError => rfl
  | closed handle => rfl
  | _ =>
      simp only [view]
      split_ifs <;> rfl

/--
A connection sees its own reads, up to an exception that ends the
program.
-/
theorem reads_views
    (server : Server J A) (c : Nat) (start : Loop llhttp A)
    (events : List Event) :
    Conn.reads (views server c start events) <+:
        events.filterMap (Event.data? c) ∧
      ((Runs.run (step server) start events).terminated = false →
        Conn.reads (views server c start events) =
          events.filterMap (Event.data? c)) := by
  induction events using List.reverseRecOn with
  | nil => exact ⟨List.prefix_rfl, fun _ => rfl⟩
  | append_singleton past event induction =>
      rw [views_concat, Runs.run_concat, List.filterMap_append, Conn.reads,
        List.filterMap_append]
      generalize Runs.run (step server) start past = loop at induction ⊢
      dsimp only
      cases ended : loop.terminated with
      | true =>
          have stopped : loop.step server event = loop := by
            simp only [step, ended, if_true]
          simp only [if_true, List.filterMap_nil, List.append_nil, stopped,
            ended]
          refine ⟨induction.1.trans (List.prefix_append _ _), fun running => ?_⟩
          cases running
      | false =>
          have own :
              (loop.view c (loop.step server event) event).filterMap
                  Conn.Event.data? =
                [event].filterMap (Event.data? c) :=
            reads_view c loop (loop.step server event) event
          have same := induction.2 ended
          rw [Conn.reads] at same
          simp only [Bool.false_eq_true, if_false, own, same]
          exact ⟨List.prefix_rfl, fun _ => trivial⟩

/-- What the handler is given, by what is seen of a run. -/
theorem deliveries_views
    (assumed : llhttp.Assumed) (own server : Server J A) (app : A) (c : Nat)
    (events : List Event) :
    let conn : PlusWeb.Conn llhttp J A :=
      (Conn.new llhttp app).run own
        (views server c (Loop.new llhttp app) events)
    conn.session.deliveries <+:
        deliveries J llhttp kMaxHeaderBytes [received c events] ∧
      (conn.session.live = true →
        (Runs.run (step server) (Loop.new llhttp app)
            events).terminated = false →
          conn.session.deliveries =
            deliveries J llhttp kMaxHeaderBytes [received c events]) := by
  have follows :=
    @Conn.follows_run J A llhttp _ own app
      (views server c (Loop.new llhttp app) events)
  obtain ⟨seen, all⟩ := reads_views server c (Loop.new llhttp app) events
  have whole :
      deliveries J llhttp kMaxHeaderBytes
          (events.filterMap (Event.data? c)) =
        deliveries J llhttp kMaxHeaderBytes [received c events] :=
    deliveries_independent assumed kMaxHeaderBytes (by simp [received])
  rw [← whole]
  refine ⟨?_, fun live running => ?_⟩
  · exact follows.early.trans (deliveries_mono kMaxHeaderBytes seen)
  · rw [← all running]
    exact follows.all live

/--
The requests of a connection among others: whatever the order in which
libuv calls back, the handler is called for the first of the requests in the
bytes received, and for all of them while the connection is open and the
program runs.
-/
theorem requests_of_stream
    (assumed : llhttp.Assumed) (server : Server J A) (app : A)
    {events : List Event}
    (promised :
      Runs.Along (step server) Promised (Loop.new llhttp app) events)
    (c : Nat) :
    ∃ memory kernel,
      let conn : PlusWeb.Conn llhttp J A :=
        (Conn.new llhttp app).run (alone server memory kernel)
          (views server c (Loop.new llhttp app) events)
      (Runs.run (step server) (Loop.new llhttp app) events).Mirrors c conn ∧
        conn.session.deliveries <+:
            deliveries J llhttp kMaxHeaderBytes [received c events] ∧
          (conn.session.live = true →
            (Runs.run (step server) (Loop.new llhttp app)
                events).terminated = false →
              conn.session.deliveries =
                deliveries J llhttp kMaxHeaderBytes
                  [received c events]) := by
  obtain ⟨memory, kernel, entries, writes, isolated⟩ :=
    isolated_run server app c promised
  exact
    ⟨memory, kernel,
      (isolated memory kernel (fun _ _ => rfl) fun _ _ => rfl).1,
      deliveries_views assumed (alone server memory kernel) server app c
        events⟩

/-- A request that is cut in two by that of another connection. -/
theorem requests_of_stream_twoConnections :
    ∃ memory kernel,
      let conn :
          PlusWeb.Conn bodilessRequests.llhttp FlatJson Unit :=
        (Conn.new bodilessRequests.llhttp ()).run
          (alone helloServer memory kernel)
          (views helloServer 0 (Loop.new bodilessRequests.llhttp ())
            twoConnections)
      (Runs.run (step helloServer) (Loop.new bodilessRequests.llhttp ())
            twoConnections).Mirrors 0 conn ∧
        conn.session.deliveries <+:
            deliveries FlatJson bodilessRequests.llhttp kMaxHeaderBytes
              [received 0 twoConnections] ∧
          (conn.session.live = true →
            (Runs.run (step helloServer)
                (Loop.new bodilessRequests.llhttp ())
                twoConnections).terminated = false →
              conn.session.deliveries =
                deliveries FlatJson bodilessRequests.llhttp kMaxHeaderBytes
                  [received 0 twoConnections]) := by
  apply requests_of_stream bodilessRequests_assumed helloServer ()
  exact promised_twoConnections

/-! ## The responses -/

end Loop

omit [Json J] in
/-- The responses of some turns. -/
theorem filterMap_entries (turns : List (Turn J)) :
    (turns.flatMap Turn.entries).filterMap LogEntry.response =
      turns.map fun turn => (turn.head, turn.body) := by
  induction turns with
  | nil => rfl
  | cons turn turns induction =>
      rw [List.flatMap_cons, List.filterMap_append, induction]
      rfl

omit [Json J] in
/-- The requests of some turns. -/
theorem filterMap_delivery (turns : List (Turn J)) :
    (turns.flatMap Turn.entries).filterMap LogEntry.delivery? =
      turns.map Turn.delivery := by
  induction turns with
  | nil => rfl
  | cons turn turns induction =>
      rw [List.flatMap_cons, List.filterMap_append, induction]
      rfl

namespace Loop

/--
The responses of a connection among others: it mirrors a connection on its
own, on which the requests in the bytes received are answered in their order,
each once, and what libuv still has to write are such answers in the same
order, with an error response behind them, whatever the other connections do.
-/
theorem responses_in_order
    (assumed : llhttp.Assumed) (closes : llhttp.Closes)
    (server : Server J A) (app : A) {events : List Event}
    (promised :
      Runs.Along (step server) Promised (Loop.new llhttp app) events)
    (c : Nat)
    (serves :
      Runs.Along (step server) (Serves server c) (Loop.new llhttp app)
        events) :
    ∃ memory kernel turns rejection,
      (Runs.run (step server) (Loop.new llhttp app) events).Mirrors c
          ((Conn.new llhttp app : PlusWeb.Conn llhttp J A).run
            (alone server memory kernel)
            (views server c (Loop.new llhttp app) events)) ∧
        (Conn.new llhttp app : PlusWeb.Conn llhttp J A).Orderly
            (alone server memory kernel)
            (views server c (Loop.new llhttp app) events) turns rejection ∧
          turns.map Turn.delivery <+:
              deliveries J llhttp kMaxHeaderBytes [received c events] ∧
            ((Runs.run (step server) (Loop.new llhttp app) events).waiting
                c).Sublist
              (turns.map (fun turn => (turn.head, turn.body)) ++
                rejection.toList.map fun reply => (reply, [])) := by
  obtain ⟨memory, kernel, entries, writes, isolated⟩ :=
    isolated_run server app c promised
  obtain ⟨mirrors, -, transfer⟩ :=
    isolated memory kernel (fun _ _ => rfl) fun _ _ => rfl
  obtain ⟨turns, rejection, orderly⟩ :=
    Conn.orderly_run closes rfl (transfer serves)
  have log := orderly.log
  have early :=
    deliveries_views assumed (alone server memory kernel) server app c events
  refine
    ⟨memory, kernel, turns, rejection, mirrors, orderly, ?_, ?_⟩
  · have answered :
        Session.deliveries
            ((Conn.new llhttp app : PlusWeb.Conn llhttp J A).run
              (alone server memory kernel)
              (views server c (Loop.new llhttp app) events)).session =
          turns.map Turn.delivery := by
      rw [Session.deliveries, log, List.filterMap_append,
        filterMap_delivery]
      cases rejection <;> exact List.append_nil _
    rw [← answered]
    exact early.1
  · have responses :
        Session.responses
            ((Conn.new llhttp app : PlusWeb.Conn llhttp J A).run
              (alone server memory kernel)
              (views server c (Loop.new llhttp app) events)).session =
          turns.map (fun turn => (turn.head, turn.body)) ++
            rejection.toList.map fun reply => (reply, []) := by
      rw [Session.responses, log, List.filterMap_append]
      congr 1
      · exact filterMap_entries turns
      · cases rejection <;> rfl
    rw [← responses]
    exact mirrors.waiting

theorem responses_in_order_twoConnections :
    ∃ memory kernel turns rejection,
      (Runs.run (step helloServer) (Loop.new bodilessRequests.llhttp ())
          twoConnections).Mirrors 0
          ((Conn.new bodilessRequests.llhttp () :
              PlusWeb.Conn bodilessRequests.llhttp FlatJson Unit).run
            (alone helloServer memory kernel)
            (views helloServer 0 (Loop.new bodilessRequests.llhttp ())
              twoConnections)) ∧
        (Conn.new bodilessRequests.llhttp () :
            PlusWeb.Conn bodilessRequests.llhttp FlatJson Unit).Orderly
            (alone helloServer memory kernel)
            (views helloServer 0 (Loop.new bodilessRequests.llhttp ())
              twoConnections) turns rejection ∧
          turns.map Turn.delivery <+:
              deliveries FlatJson bodilessRequests.llhttp kMaxHeaderBytes
                [received 0 twoConnections] ∧
            ((Runs.run (step helloServer)
                (Loop.new bodilessRequests.llhttp ())
                twoConnections).waiting 0).Sublist
              (turns.map (fun turn => (turn.head, turn.body)) ++
                rejection.toList.map fun reply => (reply, [])) := by
  apply
    responses_in_order bodilessRequests_assumed bodilessRequests_closes
      helloServer () promised_twoConnections 0
  refine ⟨trivial, trivial, ?_, ?_, ?_, trivial, trivial⟩
  · intro _
    show ∀ own ∈ Heap.object _ _, _
    decide +kernel
  · intro other
    cases other
  · intro _
    show ∀ own ∈ Heap.object _ _, _
    decide +kernel

end Loop

end PlusWeb
