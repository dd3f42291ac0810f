import PlusWeb.ConnectionResponses

/-!
# What is still queued when the server closes

`onRead` closes the connection in the same callback that queued the last
response, and `uv_close` cancels what the kernel has not taken.

In a run without write errors, a hang-up or `stop`, the kernel has taken every
byte of every response when the server closes exactly if the closing read
finds nothing queued, the kernel takes each response of that read whole, and
no head or body is too long for `unsigned int`.
-/

namespace PlusWeb

variable {J A : Type} {llhttp : Llhttp}

/-- The response of an entry. -/
def LogEntry.response : LogEntry J → Option (StdString × StdString)
  | .delivered _ _ => none
  | .sent head body => some (head, body)

namespace Session

/-- The responses passed to `send`. -/
def responses (session : Session J A) : List (StdString × StdString) :=
  session.log.filterMap LogEntry.response

/-- The bytes of the responses passed to `send`. -/
def handed (session : Session J A) : StdString :=
  session.responses.flatMap fun response => response.1 ++ response.2

/-- The lengths of a head and a body fit into `unsigned int`. -/
def Fits (response : StdString × StdString) : Prop :=
  response.1.length < 2 ^ 32 ∧ response.2.length < 2 ^ 32

instance (response : StdString × StdString) : Decidable (Fits response) :=
  inferInstanceAs (Decidable (_ ∧ _))

end Session

/-- The kernel takes all the bytes at once. -/
def KernelAnswer.Whole (bytes : StdString) : KernelAnswer → Prop
  | .takes room => bytes.length ≤ room
  | .fails => False

instance (bytes : StdString) :
    (answer : KernelAnswer) → Decidable (answer.Whole bytes)
  | .takes _ => inferInstanceAs (Decidable (_ ≤ _))
  | .fails => inferInstanceAs (Decidable False)

namespace Stream

open Session

/-- One call of `uv_write` after another, on a kernel that takes. -/
def offerAll (kernel : Nat → KernelAnswer) :
    List (StdString × StdString) → Stream → Stream
  | [], stream => stream
  | (head, body) :: rest, stream =>
      match kernel stream.writes with
      | .takes room =>
          offerAll kernel rest (stream.offer room (buffers head body))
      | .fails => stream

/-- The kernel takes each response whole. -/
def TakesWhole (kernel : Nat → KernelAnswer) :
    Nat → List (StdString × StdString) → Prop
  | _, [] => True
  | count, (head, body) :: rest =>
      (kernel count).Whole (buffers head body) ∧
        TakesWhole kernel (count + 1) rest

instance decidableTakesWhole (kernel : Nat → KernelAnswer) :
    (count : Nat) → (responses : List (StdString × StdString)) →
      Decidable (TakesWhole kernel count responses)
  | _, [] => inferInstanceAs (Decidable True)
  | count, (_, _) :: rest =>
      have := decidableTakesWhole kernel (count + 1) rest
      inferInstanceAs (Decidable (_ ∧ _))

theorem offer_all (room : Nat) (bytes : StdString) (stream : Stream) :
    (stream.offer room bytes).accepted ++ (stream.offer room bytes).queue =
      stream.accepted ++ stream.queue ++ bytes := by
  unfold offer
  split_ifs with idle
  · simp [idle]
  · simp

theorem offer_queue_eq_nil_iff
    (room : Nat) (bytes : StdString) (stream : Stream) :
    (stream.offer room bytes).queue = [] ↔
      stream.queue = [] ∧ bytes.length ≤ room := by
  unfold offer
  split_ifs with idle
  · simp [idle]
  · simp [idle]

theorem offer_writes (room : Nat) (bytes : StdString) (stream : Stream) :
    (stream.offer room bytes).writes = stream.writes + 1 := by
  unfold offer
  split_ifs <;> rfl

theorem flush_all (room : Nat) (stream : Stream) :
    (stream.flush room).accepted ++ (stream.flush room).queue =
      stream.accepted ++ stream.queue := by
  simp [flush]

variable {kernel : Nat → KernelAnswer}
  (takes : ∀ count, ∃ room, kernel count = .takes room)
include takes

theorem offerAll_append
    (front back : List (StdString × StdString)) (stream : Stream) :
    stream.offerAll kernel (front ++ back) =
      (stream.offerAll kernel front).offerAll kernel back := by
  induction front generalizing stream with
  | nil => rfl
  | cons response front induction =>
      rcases takes stream.writes with ⟨room, answer⟩
      simp only [List.cons_append, offerAll, answer, induction]

/-- Every byte offered is taken or queued. -/
theorem offerAll_all
    (responses : List (StdString × StdString)) (stream : Stream) :
    (stream.offerAll kernel responses).accepted ++
        (stream.offerAll kernel responses).queue =
      stream.accepted ++ stream.queue ++
        responses.flatMap fun response => buffers response.1 response.2 := by
  induction responses generalizing stream with
  | nil => simp [offerAll]
  | cons response responses induction =>
      rcases takes stream.writes with ⟨room, answer⟩
      simp only [offerAll, answer, induction, offer_all, List.flatMap_cons,
        List.append_assoc]

/--
Nothing is queued in the end exactly if nothing was queued and the kernel
took each response whole.
-/
theorem offerAll_queue_eq_nil_iff
    (responses : List (StdString × StdString)) (stream : Stream) :
    (stream.offerAll kernel responses).queue = [] ↔
      stream.queue = [] ∧ TakesWhole kernel stream.writes responses := by
  induction responses generalizing stream with
  | nil => simp [offerAll, TakesWhole]
  | cons response responses induction =>
      rcases takes stream.writes with ⟨room, answer⟩
      simp only [offerAll, answer, induction, offer_queue_eq_nil_iff,
        offer_writes, TakesWhole, KernelAnswer.Whole, and_assoc]

end Stream

namespace Session

theorem uvBufInit_length_le (data : StdString) :
    (uvBufInit data).length ≤ data.length := by
  simp [uvBufInit]

theorem uvBufInit_eq_iff (data : StdString) :
    (uvBufInit data).length = data.length ↔ data.length < 2 ^ 32 := by
  have bound : data.length % 2 ^ 32 < 2 ^ 32 := Nat.mod_lt _ (by decide)
  rw [uvBufInit, List.length_take]
  constructor
  · intro same
    omega
  · intro small
    rw [Nat.mod_eq_of_lt small, Nat.min_self]

theorem buffers_length (head body : StdString) :
    (buffers head body).length =
      (uvBufInit head).length + (uvBufInit body).length := by
  unfold buffers
  split_ifs with empty
  · simp
  · rw [not_not] at empty
    simp [empty, uvBufInit]

/-- The buffers hold the whole response exactly if the lengths fit. -/
theorem buffers_length_eq_iff (response : StdString × StdString) :
    (buffers response.1 response.2).length =
        (response.1 ++ response.2).length ↔ Fits response := by
  have head := uvBufInit_length_le response.1
  have body := uvBufInit_length_le response.2
  rw [buffers_length, List.length_append, Fits, ← uvBufInit_eq_iff,
    ← uvBufInit_eq_iff]
  omega

theorem buffers_eq {response : StdString × StdString}
    (fits : Fits response) :
    buffers response.1 response.2 = response.1 ++ response.2 := by
  rcases response with ⟨head, body⟩
  rcases fits with ⟨head_fits, body_fits⟩
  simp only at head_fits body_fits ⊢
  have whole {data : StdString} (fits : data.length < 2 ^ 32) :
      uvBufInit data = data := by
    rw [uvBufInit, Nat.mod_eq_of_lt fits, List.take_length]
  rw [buffers, whole head_fits, whole body_fits]
  split_ifs with empty
  · rfl
  · rw [not_not] at empty
    rw [empty]

/--
The buffers hold no more than the responses, and as much only if the
lengths fit.
-/
theorem flatMap_buffers
    (responses : List (StdString × StdString)) :
    (responses.flatMap fun response =>
          buffers response.1 response.2).length ≤
        (responses.flatMap fun response =>
          response.1 ++ response.2).length ∧
      ((responses.flatMap fun response =>
            response.1 ++ response.2).length ≤
          (responses.flatMap fun response =>
            buffers response.1 response.2).length →
        ∀ response ∈ responses, Fits response) := by
  induction responses with
  | nil => simp
  | cons response responses induction =>
      rcases induction with ⟨atMost, fits⟩
      have first := buffers_length_eq_iff response
      have head := uvBufInit_length_le response.1
      have body := uvBufInit_length_le response.2
      have short :
          (buffers response.1 response.2).length ≤
            (response.1 ++ response.2).length := by
        rw [buffers_length, List.length_append]
        omega
      simp only [List.flatMap_cons, List.length_append] at first short ⊢
      refine ⟨by omega, fun atLeast => ?_⟩
      exact
        List.forall_mem_cons.mpr
          ⟨first.mp (by omega), fits (by omega)⟩

/--
What the kernel was offered and what it has left over, compared with the
bytes of the responses.
-/
theorem accepted_eq_iff
    {accepted queue : StdString} {responses : List (StdString × StdString)}
    (all :
      accepted ++ queue =
        responses.flatMap fun response => buffers response.1 response.2) :
    accepted =
        responses.flatMap (fun response => response.1 ++ response.2) ↔
      queue = [] ∧ ∀ response ∈ responses, Fits response := by
  constructor
  · intro same
    have lengths :
        (responses.flatMap fun response =>
            response.1 ++ response.2).length + queue.length =
          (responses.flatMap fun response =>
            buffers response.1 response.2).length := by
      rw [← all, List.length_append, ← same]
    rcases flatMap_buffers responses with ⟨atMost, fits⟩
    exact ⟨List.length_eq_zero_iff.mp (by omega), fits (by omega)⟩
  · rintro ⟨rfl, fits⟩
    rw [List.append_nil] at all
    rw [all]
    exact List.flatMap_congr fun response member =>
      buffers_eq (fits response member)

end Session

/-! ## The bytes of an open connection -/

namespace Session

/--
While the connection is open, the stream has taken or queued the buffers
of all responses.
-/
def Handed (session : Session J A) : Prop :=
  session.closing = false →
    session.stream.accepted ++ session.stream.queue =
      session.responses.flatMap fun response =>
        buffers response.1 response.2

theorem handed_closeConn (session : Session J A) :
    session.closeConn.Handed := by
  intro isOpen
  rw [closeConn_closing] at isOpen
  cases isOpen

theorem Handed.note
    {session : Session J A} (handed : session.Handed)
    (request : HttpRequest J) (keepAlive : Bool) :
    (session.note (.delivered request keepAlive)).Handed := by
  intro isOpen
  have same :
      (session.note (.delivered request keepAlive)).responses =
        session.responses := by
    simp [responses, Session.note, LogEntry.response]
  rw [same]
  exact handed isOpen

theorem Handed.send
    {session : Session J A} (handed : session.Handed)
    (kernel : Nat → KernelAnswer) (head body : StdString) :
    (session.send kernel head body).Handed := by
  unfold Session.send
  dsimp only
  split
  · next closing =>
    intro isOpen
    rw [closing] at isOpen
    cases isOpen
  · next isOpen =>
    split
    · exact handed_closeConn _
    · intro _
      have before := handed (Bool.eq_false_of_not_eq_true isOpen)
      show
        (session.stream.offer _ _).accepted ++
            (session.stream.offer _ _).queue = _
      rw [Stream.offer_all, before]
      simp [responses, Session.note, LogEntry.response]

end Session

variable [Json J]

namespace Server

theorem handed_onRequest
    (server : Server J A) {session : Session J A}
    (handed : session.Handed) (request : HttpRequest J)
    (keepAlive : Bool) :
    (server.onRequest request keepAlive session).2.Handed := by
  cases replied :
      (server.serve request keepAlive
        (session.note (.delivered request keepAlive))).reply with
  | error exception =>
      rw [onRequest_error replied]
      exact handed.note request keepAlive
  | ok reply =>
      rw [onRequest_ok replied]
      apply Session.Handed.send
      exact handed.note request keepAlive

theorem handed_each
    (server : Server J A) (deliveries : List (HttpRequest J × Bool))
    {session : Session J A} (handed : session.Handed) :
    (server.onRequest.each deliveries session).2.Handed := by
  induction deliveries generalizing session with
  | nil => exact handed
  | cons delivery deliveries induction =>
      rcases delivery with ⟨request, keepAlive⟩
      have first := server.handed_onRequest handed request keepAlive
      simp only [RequestHandler.each, Action.seq]
      split
      · next after called =>
        rw [called] at first
        exact induction first
      · next called =>
        rw [called] at first
        exact first

end Server

namespace Conn

theorem handed_onRead
    (server : Server J A) {conn : Conn llhttp J A}
    (handed : conn.session.Handed) (data : StdString) :
    (conn.onRead server data).session.Handed := by
  have left :
      (conn.parser.execute server.onRequest data
        { conn.session with shouldClose := false }).2.Handed := by
    rw [HttpParser.execute_snd]
    exact server.handed_each _ handed
  unfold onRead
  generalize
    conn.parser.execute server.onRequest data
      { conn.session with shouldClose := false } = result at left ⊢
  rcases result with ⟨executed, session⟩
  cases executed with
  | accepted parser =>
      simp only [afterExecute]
      split
      · exact Session.handed_closeConn _
      · exact left
  | failed status reason =>
      simp only [afterExecute]
      split
      · exact Session.handed_closeConn _
      · exact left
  | escaped exception => exact left

theorem handed_step
    (server : Server J A) {conn : Conn llhttp J A}
    (handed : conn.session.Handed) (event : Event A) :
    (conn.step server event).session.Handed := by
  cases event with
  | read data =>
      simp only [step]
      split
      · exact handed_onRead server handed data
      · exact handed
  | writable room =>
      simp only [step]
      split
      · intro isOpen
        exact (Stream.flush_all room _).trans (handed isOpen)
      · exact handed
  | elsewhere app =>
      simp only [step]
      split
      · exact handed
      · exact handed
  | hangUp | writeFailed | stop =>
      simp only [step]
      split
      · exact Session.handed_closeConn _
      · exact handed

theorem handed_run
    (server : Server J A) (app : A) (events : List (Event A)) :
    ((Conn.new llhttp app).run server events).session.Handed := by
  have start :
      (Conn.new llhttp app : Conn llhttp J A).session.Handed :=
    fun _ => rfl
  exact
    @Runs.invariant_always _ _ (step server)
      (fun conn => conn.session.Handed)
      (fun _ event handed => handed_step server handed event) _ start events

end Conn

/-! ## The responses of one read -/

/-- The replies to the requests of a read, up to the first that has none. -/
def Server.replies (server : Server J A) :
    List (HttpRequest J × Bool) → Session J A →
      List (StdString × StdString)
  | [], _ => []
  | (request, keepAlive) :: rest, session =>
      match
        (server.serve request keepAlive
          (session.note (.delivered request keepAlive))).reply with
      | .error _ => []
      | .ok reply =>
          reply :: server.replies rest
            (server.onRequest request keepAlive session).2

/--
The server closes the connection: the last request does not keep it
alive, or there is an error response.
-/
def Executed.Closes (delivered : List (HttpRequest J × Bool)) :
    Executed llhttp → Prop
  | .accepted _ => delivered.getLast?.map Prod.snd = some false
  | .failed status _ => (errorResponse J status).isOk = true
  | .escaped _ => False

/-- The error response that goes with what the parser made of a read. -/
def Executed.rejected (J : Type) [Json J] :
    Executed llhttp → List (StdString × StdString)
  | .failed status _ =>
      (errorResponse J status).toOption.toList.map (·, [])
  | _ => []

/-- The server closes the connection after `execute`. -/
def Executed.Ends (J : Type) [Json J] (shouldClose : Bool) :
    Executed llhttp → Prop
  | .accepted _ => shouldClose = true
  | .failed status _ => (errorResponse J status).isOk = true
  | .escaped _ => False

instance (delivered : List (HttpRequest J × Bool)) :
    (executed : Executed llhttp) → Decidable (executed.Closes delivered)
  | .accepted _ => inferInstanceAs (Decidable (_ = _))
  | .failed _ _ => inferInstanceAs (Decidable (_ = _))
  | .escaped _ => inferInstanceAs (Decidable False)

namespace Conn

/-- How the parser takes a read. -/
def executed (server : Server J A) (conn : Conn llhttp J A)
    (data : StdString) : Executed llhttp :=
  (conn.parser.execute server.onRequest data
    { conn.session with shouldClose := false }).1

/-- The error response to a read, if there is one. -/
def rejection (server : Server J A) (conn : Conn llhttp J A)
    (data : StdString) : Option StdString :=
  match conn.executed server data with
  | .failed status _ => (errorResponse J status).toOption
  | _ => none

/-- The responses to a read. -/
def responsesTo (server : Server J A) (conn : Conn llhttp J A)
    (data : StdString) : List (StdString × StdString) :=
  server.replies (conn.parser.delivers J data)
      { conn.session with shouldClose := false } ++
    (conn.rejection server data).toList.map (·, [])

/-- After this read the server closes the connection. -/
def Closing (server : Server J A) (conn : Conn llhttp J A)
    (data : StdString) : Prop :=
  (conn.executed server data).Closes (conn.parser.delivers J data)

instance (server : Server J A) (conn : Conn llhttp J A)
    (data : StdString) : Decidable (conn.Closing server data) :=
  inferInstanceAs (Decidable (Executed.Closes _ _))

/--
When the server is going to close, nothing is queued, the kernel takes
each response of the read whole, and the lengths of all responses fit.
-/
def Drains (server : Server J A) (conn : Conn llhttp J A) :
    Event A → Prop
  | .read data => conn.session.live = true → conn.Closing server data →
      conn.session.stream.queue = [] ∧
        Stream.TakesWhole server.kernel conn.session.stream.writes
          (conn.responsesTo server data) ∧
        ∀ response ∈
          conn.session.responses ++ conn.responsesTo server data,
          Session.Fits response
  | _ => True

instance (server : Server J A) (conn : Conn llhttp J A) :
    (event : Event A) → Decidable (conn.Drains server event)
  | .read _ => inferInstanceAs (Decidable (_ → _ → _ ∧ _ ∧ _))
  | .hangUp => inferInstanceAs (Decidable True)
  | .writable _ => inferInstanceAs (Decidable True)
  | .writeFailed => inferInstanceAs (Decidable True)
  | .stop => inferInstanceAs (Decidable True)
  | .elsewhere _ => inferInstanceAs (Decidable True)

/-- No write error, no hang-up and no `stop`. -/
def Event.Undisturbed : Event A → Prop
  | .read _ | .writable _ | .elsewhere _ => True
  | .hangUp | .writeFailed | .stop => False

end Conn

section Reads

variable {server : Server J A}
  (takes : ∀ count, ∃ room, server.kernel count = .takes room)
include takes

omit [Json J] in
theorem Session.send_open
    {session : Session J A} (isOpen : session.closing = false)
    (head body : StdString) :
    (session.send server.kernel head body).closing = false ∧
      (session.send server.kernel head body).terminated =
        session.terminated ∧
      (session.send server.kernel head body).responses =
        session.responses ++ [(head, body)] ∧
      (session.send server.kernel head body).stream =
        session.stream.offerAll server.kernel [(head, body)] := by
  rcases takes session.stream.writes with ⟨room, answer⟩
  simp [send, note, isOpen, answer, responses, LogEntry.response,
    Stream.offerAll]

theorem Server.each_open
    (deliveries : List (HttpRequest J × Bool)) {session : Session J A}
    (isOpen : session.closing = false) :
    (server.onRequest.each deliveries session).2.closing = false ∧
      (server.onRequest.each deliveries session).2.terminated =
        session.terminated ∧
      (server.onRequest.each deliveries session).2.responses =
        session.responses ++ server.replies deliveries session ∧
      (server.onRequest.each deliveries session).2.stream =
        session.stream.offerAll server.kernel
          (server.replies deliveries session) := by
  induction deliveries generalizing session with
  | nil =>
      simp [RequestHandler.each, Action.skip, replies, isOpen,
        Stream.offerAll]
  | cons delivery deliveries induction =>
      rcases delivery with ⟨request, keepAlive⟩
      simp only [RequestHandler.each, Action.seq, replies]
      cases replied :
          (server.serve request keepAlive
            (session.note (.delivered request keepAlive))).reply with
      | error exception =>
          rw [onRequest_error replied]
          simp [Session.keep, Session.note, isOpen, Session.responses,
            LogEntry.response, Stream.offerAll]
      | ok reply =>
          rcases reply with ⟨head, body⟩
          have keptOpen :
              ((session.note (.delivered request keepAlive)).keep
                (server.serve request keepAlive
                  (session.note (.delivered request keepAlive)))).closing =
                false := isOpen
          obtain ⟨closing, terminated, responses, stream⟩ :=
            Session.send_open takes keptOpen head body
          rw [onRequest_ok replied]
          dsimp only
          obtain ⟨closing', terminated', responses', stream'⟩ :=
            induction closing
          refine ⟨closing', terminated'.trans terminated, ?_, ?_⟩
          · rw [responses', responses]
            simp [Session.responses, Session.note, Session.keep,
              LogEntry.response]
          · rw [stream', stream, ← Stream.offerAll_append takes]
            rfl

omit [Json J] takes in
theorem Session.closeConn_open
    {session : Session J A} (isOpen : session.closing = false) :
    session.closeConn.closing = true ∧
      session.closeConn.responses = session.responses ∧
      session.closeConn.stream = session.stream.close := by
  simp [closeConn, isOpen, responses]

namespace Conn

/-- What the server sends and does after `execute`, in an open session. -/
theorem afterExecute_open
    (parser : HttpParser llhttp) (executed : Executed llhttp)
    {session : Session J A} (isOpen : session.closing = false) :
    (afterExecute server parser (executed, session)).session.responses =
        session.responses ++ executed.rejected J ∧
      (executed.Ends J session.shouldClose →
        (afterExecute server parser (executed, session)).session.closing =
            true ∧
          (afterExecute server parser (executed, session)).session.stream =
            (session.stream.offerAll server.kernel
              (executed.rejected J)).close) ∧
      (¬ executed.Ends J session.shouldClose →
        (afterExecute server parser (executed, session)).session.closing =
            false ∧
          (afterExecute server parser (executed, session)).session.stream =
            session.stream.offerAll server.kernel
              (executed.rejected J)) := by
  cases executed with
  | accepted parser =>
      simp only [afterExecute, Executed.rejected, Executed.Ends]
      cases flag : session.shouldClose with
      | false => simp [isOpen, Stream.offerAll]
      | true =>
          obtain ⟨closed, responses, stream⟩ :=
            Session.closeConn_open isOpen
          simp [closed, responses, stream, Stream.offerAll]
  | failed status reason =>
      simp only [afterExecute, Executed.rejected, Executed.Ends]
      cases errorResponse J status with
      | error exception =>
          simp [Except.isOk, Except.toBool, Except.toOption,
            Stream.offerAll, isOpen, Session.responses]
      | ok reply =>
          obtain ⟨sentOpen, -, sentResponses, sentStream⟩ :=
            Session.send_open takes isOpen reply []
          have sentOpen' :
              ({ session.send server.kernel reply [] with
                shouldClose := true } : Session J A).closing = false :=
            sentOpen
          obtain ⟨closed, responses, stream⟩ :=
            Session.closeConn_open sentOpen'
          refine ⟨?_, fun _ => ⟨closed, ?_⟩, fun open_ => absurd rfl open_⟩
          · exact responses.trans sentResponses
          · rw [stream]
            exact congrArg Stream.close sentStream
  | escaped exception =>
      simp [afterExecute, Executed.rejected, Executed.Ends, isOpen,
        Stream.offerAll, Session.responses]

omit takes in
/-- After `execute` the flag says what the deliveries say. -/
theorem ends_iff_closing (conn : Conn llhttp J A) (data : StdString) :
    (conn.executed server data).Ends J
        (conn.parser.execute server.onRequest data
          { conn.session with shouldClose := false }).2.shouldClose ↔
      conn.Closing server data := by
  rw [Closing]
  cases executed : conn.executed server data with
  | accepted parser =>
      have returned :
          server.onRequest.each (conn.parser.delivers J data)
              { conn.session with shouldClose := false } =
            (.returned,
              (conn.parser.execute server.onRequest data
                { conn.session with shouldClose := false }).2) :=
        Prod.ext (HttpParser.returned_of_accepted executed)
          (conn.parser.execute_snd server.onRequest data _).symm
      rcases server.each_turns returned with ⟨-, -, -, -, shouldClose⟩
      simp only [Executed.Ends, Executed.Closes, shouldClose]
      cases (conn.parser.delivers J data).getLast? with
      | none => simp
      | some delivery =>
          rcases delivery with ⟨request, keepAlive⟩
          cases keepAlive <;> simp
  | failed status reason => rfl
  | escaped exception => rfl

omit takes in
theorem responsesTo_eq (conn : Conn llhttp J A) (data : StdString) :
    conn.responsesTo server data =
      server.replies (conn.parser.delivers J data)
          { conn.session with shouldClose := false } ++
        (conn.executed server data).rejected J := by
  rw [responsesTo, rejection]
  cases conn.executed server data <;> rfl

/-- A read in an open connection. -/
theorem onRead_open
    {conn : Conn llhttp J A} (isOpen : conn.session.closing = false)
    (data : StdString) :
    (conn.onRead server data).session.responses =
        conn.session.responses ++ conn.responsesTo server data ∧
      (conn.Closing server data →
        (conn.onRead server data).session.closing = true ∧
          (conn.onRead server data).session.stream =
            (conn.session.stream.offerAll server.kernel
              (conn.responsesTo server data)).close) ∧
      (¬ conn.Closing server data →
        (conn.onRead server data).session.closing = false ∧
          (conn.onRead server data).session.stream =
            conn.session.stream.offerAll server.kernel
              (conn.responsesTo server data)) := by
  have startOpen :
      ({ conn.session with shouldClose := false } :
        Session J A).closing = false := isOpen
  have left :=
    conn.parser.execute_snd server.onRequest data
      { conn.session with shouldClose := false }
  obtain ⟨closing, -, responses, stream⟩ :=
    Server.each_open takes (conn.parser.delivers J data) startOpen
  rw [← left] at closing responses stream
  have same : conn.onRead server data =
      afterExecute server conn.parser
        (conn.executed server data,
          (conn.parser.execute server.onRequest data
            { conn.session with shouldClose := false }).2) := rfl
  obtain ⟨all, closed, open_⟩ :=
    afterExecute_open takes conn.parser (conn.executed server data) closing
  rw [← same, ends_iff_closing] at closed open_
  rw [← same, responses] at all
  rw [stream, ← Stream.offerAll_append takes, ← responsesTo_eq] at closed open_
  refine ⟨?_, closed, open_⟩
  rw [all, responsesTo_eq, ← List.append_assoc]
  rfl

/-- The connection is open, and every byte offered is taken or queued. -/
def Accounts (conn : Conn llhttp J A) : Prop :=
  conn.session.closing = false ∧ conn.session.Handed

/--
A closing read: the kernel has everything exactly if the read drains the
connection.
-/
theorem drains_iff
    {conn : Conn llhttp J A} (accounts : conn.Accounts) {data : StdString}
    (live : conn.session.live = true) (closing : conn.Closing server data) :
    (conn.onRead server data).session.stream.accepted =
        (conn.onRead server data).session.handed ↔
      conn.Drains server (.read data) := by
  rcases onRead_open takes accounts.1 data with ⟨responses, closed, -⟩
  rcases closed closing with ⟨-, stream⟩
  have all :=
    Stream.offerAll_all takes (conn.responsesTo server data)
      conn.session.stream
  rw [accounts.2 accounts.1, ← List.flatMap_append] at all
  have whole := Session.accepted_eq_iff all
  rw [Stream.offerAll_queue_eq_nil_iff takes, and_assoc] at whole
  rw [Session.handed, responses, stream]
  refine whole.trans ?_
  simp [Drains, live, closing]

/-- A step in an open connection keeps the account, or is a closing read. -/
theorem accounts_step
    {conn : Conn llhttp J A} (accounts : conn.Accounts)
    (live : conn.session.live = true) {event : Event A}
    (undisturbed : event.Undisturbed)
    (proceeds : ∀ data, event = .read data → ¬ conn.Closing server data) :
    (conn.step server event).Accounts := by
  refine ⟨?_, handed_step server accounts.2 event⟩
  cases event with
  | read data =>
      rcases onRead_open takes accounts.1 data with ⟨-, -, opened⟩
      rw [step, if_pos live]
      exact (opened (proceeds data rfl)).1
  | writable room =>
      rw [step, if_pos live]
      exact accounts.1
  | elsewhere app =>
      rw [step, if_pos live]
      exact accounts.1
  | hangUp => exact undisturbed.elim
  | writeFailed => exact undisturbed.elim
  | stop => exact undisturbed.elim

omit takes in
/-- Nothing happens to a connection that is closed or has crashed. -/
theorem step_of_not_live
    {conn : Conn llhttp J A} (closed : conn.session.live = false)
    (event : Event A) :
    conn.step server event = conn := by
  cases event <;> simp [step, closed]

omit takes in
theorem along_of_not_live
    (server : Server J A) {conn : Conn llhttp J A} (closed : conn.session.live = false)
    (events : List (Event A)) :
    Runs.Along (step server) (Drains server) conn events := by
  induction events with
  | nil => trivial
  | cons event events induction =>
      refine ⟨?_, by rwa [step_of_not_live closed]⟩
      cases event <;> simp [Drains, closed]

/--
From an open connection whose bytes are accounted for: when the server
has closed it, the kernel has taken every byte of every response exactly if
the closing read drains the connection.
-/
theorem handed_iff
    {conn : Conn llhttp J A} (accounts : conn.Accounts)
    {events : List (Event A)} (undisturbed : ∀ event ∈ events, event.Undisturbed) :
    ((conn.run server events).session.closing = true →
        (conn.run server events).session.stream.accepted =
          (conn.run server events).session.handed) ↔
      Runs.Along (step server) (Drains server) conn events := by
  induction events generalizing conn with
  | nil => simp [run, accounts.1, Runs.Along]
  | cons event events induction =>
      have first := undisturbed event (List.mem_cons_self ..)
      have later : ∀ event ∈ events, event.Undisturbed :=
        fun next member => undisturbed next (List.mem_cons_of_mem _ member)
      have stepped :
          conn.run server (event :: events) =
            (conn.step server event).run server events := rfl
      rw [stepped, Runs.Along]
      cases live : conn.session.live with
      | false =>
          have stays : (conn.step server event).run server events = conn := by
            rw [step_of_not_live live]
            exact Runs.run_of_fixed (step_of_not_live live) events
          have drains :=
            along_of_not_live server live (event :: events)
          rw [stays, accounts.1]
          exact iff_of_true (absurd · Bool.false_ne_true) drains
      | true =>
          by_cases closes :
              ∃ data, event = .read data ∧ conn.Closing server data
          · rcases closes with ⟨data, rfl, closing⟩
            have read :
                conn.step server (.read data) = conn.onRead server data :=
              if_pos live
            rcases onRead_open takes accounts.1 data with ⟨-, closed, -⟩
            have closed := (closed closing).1
            have notLive : (conn.onRead server data).session.live = false := by
              simp [Session.live, closed]
            have stays :
                (conn.onRead server data).run server events =
                  conn.onRead server data :=
              Runs.run_of_fixed (step_of_not_live notLive) events
            rw [read, stays, drains_iff takes accounts live closing]
            simp [closed, along_of_not_live server notLive events]
          · have proceeds :
                ∀ data, event = .read data → ¬ conn.Closing server data :=
              fun data same closing => closes ⟨data, same, closing⟩
            have drains : conn.Drains server event := by
              cases event with
              | read data =>
                  exact fun _ closing => absurd closing (proceeds data rfl)
              | _ => trivial
            rw [induction
              (accounts_step takes accounts live first proceeds) later]
            simp [drains]

end Conn

end Reads

/--
In a run without write errors, a hang-up or `stop`: when the server has
closed the connection, the kernel has taken every byte of every response
passed to `send`, exactly if the closing read drains the connection.
-/
theorem closed_handed_iff
    (server : Server J A)
    (takes : ∀ count, ∃ room, server.kernel count = .takes room)
    (app : A) (events : List (Conn.Event A))
    (undisturbed : ∀ event ∈ events, event.Undisturbed) :
    (((Conn.new llhttp app : Conn llhttp J A).run server
            events).session.closing = true →
        ((Conn.new llhttp app : Conn llhttp J A).run server
            events).session.stream.accepted =
          ((Conn.new llhttp app : Conn llhttp J A).run server
            events).session.handed) ↔
      Runs.Along (Conn.step server) (Conn.Drains server)
        (Conn.new llhttp app : Conn llhttp J A) events :=
  Conn.handed_iff takes ⟨rfl, fun _ => rfl⟩ undisturbed

/-! ## Two kernels -/

/--
The reads of a client that closes after its second request, with a full
socket buffer in between.
-/
def drainedReads : List (Conn.Event Unit) :=
  [.read (ascii "GET / HTTP/1.1\r\n\r\n"), .writable 65536,
    .read (ascii "GET / HTTP/1.0\r\n\r\n")]

/-- `helloServer` on a kernel with room for ten bytes at first. -/
def slowServer : Server FlatJson Unit :=
  { helloServer with
    kernel := fun count => .takes (if count = 0 then 10 else 65536) }

theorem undisturbed_drainedReads :
    ∀ event ∈ drainedReads, event.Undisturbed := by
  simp [drainedReads, Conn.Event.Undisturbed]

theorem closed_handed_iff_drainedReads :
    (helloConn.run slowServer drainedReads).session.stream.accepted =
      (helloConn.run slowServer drainedReads).session.handed := by
  have drains :
      Runs.Along (Conn.step slowServer) (Conn.Drains slowServer) helloConn
        drainedReads := by
    decide +kernel
  have closing :
      (helloConn.run slowServer drainedReads).session.closing = true := by
    decide +kernel
  have kept :=
    @closed_handed_iff FlatJson Unit bodilessRequests.llhttp _ slowServer
      (fun count => ⟨_, rfl⟩) () drainedReads undisturbed_drainedReads
  unfold helloConn at drains closing ⊢
  exact kept.mpr drains closing

/--
A response that says `Connection: close`, of which the kernel takes ten
bytes at once: the rest is cancelled.
-/
theorem closed_truncated :
    ¬ ∀ events : List (Conn.Event Unit),
      (∀ event ∈ events, event.Undisturbed) →
      (helloConn.run slowServer events).session.closing = true →
        (helloConn.run slowServer events).session.stream.accepted =
          (helloConn.run slowServer events).session.handed := by
  intro all
  have kept :=
    all [.read (ascii "GET / HTTP/1.0\r\n\r\n")]
      (by simp [Conn.Event.Undisturbed]) (by decide +kernel)
  exact absurd kept (by decide +kernel)

end PlusWeb
