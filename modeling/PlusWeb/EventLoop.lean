import PlusWeb.HandleRequest
import PlusWeb.ParserDeliveries
import PlusWeb.Library.Runs

/-!
# One connection in `HttpServer::Loop`

libuv calls `onRead` for each piece of input, `onWrite` when a write ends,
and `onStop` when the server is stopped; each runs to its end before the next
one starts.

A stream keeps the bytes handed to `uv_write` that the kernel has not taken.
`uv_write` tries to write at once if nothing is queued, and the kernel takes
a prefix; the rest waits for the socket to become writable.  `uv_close` stops
reading and cancels what is queued.

A connection keeps a log of the requests delivered to the handler and the
responses passed to `send`.  The model of the whole server is that of one
connection: what the handlers of the others do to the program's own data is
an event.
-/

namespace PlusWeb

variable {J A : Type} {llhttp : Llhttp}

/-! ## Streams -/

/--
What one call of `uv_write` meets: it fails, or the kernel has room for
some bytes.
-/
inductive KernelAnswer where
  | takes (room : Nat)
  | fails
deriving DecidableEq, Repr

/--
`uv_stream_t`: the bytes queued, the bytes the kernel has taken, and the
number of calls of `uv_write`.
-/
structure Stream where
  queue : StdString
  accepted : StdString
  writes : Nat
deriving DecidableEq, Repr

namespace Stream

def new : Stream where
  queue := []
  accepted := []
  writes := 0

/--
`uv_write` with room for some bytes: it tries to write only if nothing is
queued.
-/
def offer (room : Nat) (bytes : StdString) (stream : Stream) : Stream :=
  if stream.queue = [] then
    { queue := bytes.drop room
      accepted := stream.accepted ++ bytes.take room
      writes := stream.writes + 1 }
  else
    { queue := stream.queue ++ bytes
      accepted := stream.accepted
      writes := stream.writes + 1 }

/-- The socket has become writable. -/
def flush (room : Nat) (stream : Stream) : Stream :=
  { stream with
    queue := stream.queue.drop room
    accepted := stream.accepted ++ stream.queue.take room }

/-- `uv_close`: what is queued is cancelled. -/
def close (stream : Stream) : Stream := { stream with queue := [] }

end Stream

/-! ## The connection -/

/-- A request delivered, or a response passed to `send`. -/
inductive LogEntry (J : Type) where
  | delivered (request : HttpRequest J) (keepAlive : Bool)
  | sent (head body : StdString)

/--
What the callbacks of one connection work on: the stream, `Conn::closing`,
the local `shouldClose` of `onRead`, the program's own data, the log, and
whether an exception has left a callback, which ends the program.
-/
structure Session (J A : Type) where
  stream : Stream
  closing : Bool
  shouldClose : Bool
  app : A
  log : List (LogEntry J)
  terminated : Bool

/--
The set-up server and what is decided outside it: the values of the
uninitialised `$status` and the kernel's answers, one after another.
-/
structure Server (J A : Type) where
  setup : Setup
  callbacks : Callbacks J A
  memory : Nat → Int
  kernel : Nat → KernelAnswer

namespace Session

/-- A connection that was just accepted. -/
def new (app : A) : Session J A where
  stream := Stream.new
  closing := false
  shouldClose := false
  app := app
  log := []
  terminated := false

/-- Write an entry of the log. -/
def note (entry : LogEntry J) (session : Session J A) : Session J A :=
  { session with log := session.log ++ [entry] }

/-- `Loop::closeConn`. -/
def closeConn (session : Session J A) : Session J A :=
  if session.closing then session
  else { session with closing := true, stream := session.stream.close }

/-- `uv_buf_init`: the length is converted to `unsigned int`. -/
def uvBufInit (data : StdString) : StdString :=
  data.take (data.length % 2 ^ 32)

/-- The bytes of the buffers `send` hands to `uv_write`. -/
def buffers (head body : StdString) : StdString :=
  uvBufInit head ++ if body ≠ [] then uvBufInit body else []

/-- `Loop::send`.  On a stream that is being closed `uv_write` fails. -/
def send
    (kernel : Nat → KernelAnswer) (head body : StdString)
    (session : Session J A) : Session J A :=
  let session := session.note (.sent head body)
  if session.closing then session
  else
    match kernel session.stream.writes with
    | .fails => session.closeConn
    | .takes room =>
        { session with
          stream := session.stream.offer room (buffers head body) }

/-- Reading goes on: the connection is open and the program runs. -/
def live (session : Session J A) : Bool :=
  !session.closing && !session.terminated

end Session

/-- `Loop::Conn`. -/
structure Conn (llhttp : Llhttp) (J A : Type) where
  parser : HttpParser llhttp
  session : Session J A

variable [Json J]

/-- What `handleRequest` leaves of a request is taken over. -/
def Session.keep (served : Served A) (session : Session J A) :
    Session J A :=
  { session with shouldClose := served.shouldClose, app := served.app }

/-- The call of `handleRequest` for a request. -/
def Server.serve (server : Server J A) (request : HttpRequest J)
    (keepAlive : Bool) (session : Session J A) : Served A :=
  handleRequest server.setup server.callbacks
    (server.memory session.log.length) request keepAlive
    session.shouldClose session.app

/-- The request handler `onRead` gives to `execute`. -/
def Server.onRequest (server : Server J A) :
    RequestHandler J (Session J A) := fun request keepAlive session =>
  let session := session.note (.delivered request keepAlive)
  let served := server.serve request keepAlive session
  match served.reply with
  | .error exception => (.threw exception, session.keep served)
  | .ok (head, body) =>
      (.returned, (session.keep served).send server.kernel head body)

namespace Server

variable {server : Server J A} {request : HttpRequest J} {keepAlive : Bool}
  {session : Session J A}

theorem onRequest_error
    {exception : CxxException}
    (thrown :
      (server.serve request keepAlive
        (session.note (.delivered request keepAlive))).reply =
          .error exception) :
    server.onRequest request keepAlive session =
      (.threw exception,
        (session.note (.delivered request keepAlive)).keep
          (server.serve request keepAlive
            (session.note (.delivered request keepAlive)))) := by
  simp only [onRequest, thrown]

theorem onRequest_ok
    {head body : StdString}
    (replied :
      (server.serve request keepAlive
        (session.note (.delivered request keepAlive))).reply =
          .ok (head, body)) :
    server.onRequest request keepAlive session =
      (.returned,
        ((session.note (.delivered request keepAlive)).keep
          (server.serve request keepAlive
            (session.note (.delivered request keepAlive)))).send
              server.kernel head body) := by
  simp only [onRequest, replied]

end Server

namespace Conn

/-- A new connection. -/
def new (llhttp : Llhttp) (app : A) : Conn llhttp J A where
  parser := HttpParser.new llhttp kMaxHeaderBytes
  session := Session.new app

/--
`Loop::onRead` after `execute`.  A parser that has failed is not used
again, as the connection is closed.
-/
def afterExecute
    (server : Server J A) (parser : HttpParser llhttp) :
    Executed llhttp × Session J A → Conn llhttp J A
  | (.accepted parser, session) =>
      ⟨parser, if session.shouldClose then session.closeConn else session⟩
  | (.failed status _, session) =>
      match errorResponse J status with
      | .ok reply =>
          ⟨parser,
            ({ session.send server.kernel reply [] with
              shouldClose := true } : Session J A).closeConn⟩
      | .error _ => ⟨parser, { session with terminated := true }⟩
  | (.escaped _, session) => ⟨parser, { session with terminated := true }⟩

/-- `Loop::onRead` for bytes that were read. -/
def onRead (server : Server J A) (conn : Conn llhttp J A)
    (data : StdString) : Conn llhttp J A :=
  afterExecute server conn.parser
    (conn.parser.execute server.onRequest data
      { conn.session with shouldClose := false })

/-- `Loop::closeConn`, from `onRead` for an error, `onWrite` or `onStop`. -/
def closeConn (conn : Conn llhttp J A) : Conn llhttp J A :=
  { conn with session := conn.session.closeConn }

/-- What can happen to a connection. -/
inductive Event (A : Type) where
  | read (data : StdString)
  | hangUp
  | writable (room : Nat)
  | writeFailed
  | stop
  | elsewhere (app : A)

/--
One event.  After `uv_close` there are no reads and nothing is queued,
and after an exception nothing happens.
-/
def step (server : Server J A) (conn : Conn llhttp J A) :
    Event A → Conn llhttp J A
  | .read data =>
      if conn.session.live then conn.onRead server data else conn
  | .hangUp => if conn.session.live then conn.closeConn else conn
  | .writable room =>
      if conn.session.live then
        { conn with
          session :=
            { conn.session with stream := conn.session.stream.flush room } }
      else conn
  | .writeFailed => if conn.session.live then conn.closeConn else conn
  | .stop => if conn.session.live then conn.closeConn else conn
  | .elsewhere app =>
      if conn.session.live then
        { conn with session := { conn.session with app := app } }
      else conn

/-- The events of a connection, from its first read on. -/
def run (server : Server J A) (conn : Conn llhttp J A)
    (events : List (Event A)) : Conn llhttp J A :=
  Runs.run (step server) conn events

end Conn

end PlusWeb
