import PlusWeb.Shutdown
import PlusWeb.WriteBacklog

/-!
# One connection among the others

`Loop` is the whole server, with the objects of all connections and one
counter of calls and of write requests; `Conn` is one connection, which
knows of the others only that they may have worked on the program's own
data.

Each connection of a run of the server is such a `Conn`: it does what is left
of the events if those of the others are forgotten, and the write requests
that libuv has for it are responses of its own log, in order.  The values of
the uninitialised `$status` and the answers of the kernel are those of the
server, counted anew.

What is shown of a `Conn` in every run thus holds of each connection of a
server, in whatever order libuv calls back.
-/

namespace PlusWeb

variable {J A : Type} {llhttp : Llhttp}

theorem Session.closeConn_responses (session : Session J A) :
    session.closeConn.responses = session.responses := by
  rw [responses, closeConn_log, responses]

theorem Session.send_responses
    (kernel : Nat → KernelAnswer) (head body : StdString)
    (session : Session J A) :
    (session.send kernel head body).responses =
      session.responses ++ [(head, body)] := by
  rw [responses, send_log, List.filterMap_append]
  rfl

theorem Conn.closeConn_closeConn (conn : Conn llhttp J A) :
    conn.closeConn.closeConn = conn.closeConn := by
  have closed : conn.closeConn.session.closing = true :=
    Session.closeConn_closing _
  have same : conn.closeConn.session.closeConn = conn.closeConn.session := by
    rw [Session.closeConn, if_pos closed]
  rw [closeConn, same]

/-- How `execute` ends, if the calls of the handler end so. -/
def HttpParser.ends
    (J : Type) [Json J] (parser : HttpParser llhttp) (data : StdString) :
    Outcome CxxException → Executed llhttp
  | .returned => parser.ending data (parser.reads J data).1
  | .threw exception =>
      parser.ending data
        (.error (Impl.caught (ascii "handler threw: ") exception))

theorem HttpParser.execute_ends
    [Json J] {τ : Type} (parser : HttpParser llhttp)
    (handler : RequestHandler J τ) (data : StdString) (outer : τ) :
    parser.execute handler data outer =
      (parser.ends J data
          (handler.each (parser.delivers J data) outer).1,
        (handler.each (parser.delivers J data) outer).2) := by
  rw [execute_eq]
  cases handler.each (parser.delivers J data) outer with
  | mk outcome after => cases outcome <;> rfl

namespace Loop

/--
The responses that libuv has for a connection, in the order in which they
were passed to `uv_write`.
-/
def waiting (c : Nat) (loop : Loop llhttp A) : List (StdString × StdString) :=
  (loop.writeReqs.objects.filter fun wr => wr.handle = some c).map fun wr =>
    (wr.head, wr.body)

/--
What a connection sees of an event that leads from one state of the
server to another.
-/
def view (c : Nat) (before after : Loop llhttp A) :
    Event → List (PlusWeb.Conn.Event A)
  | .connection accepted =>
      if before.conns.next = c ∧ accepted = false then [.hangUp] else []
  | .connectionError => []
  | .read stream data =>
      if stream = c then [.read data] else [.elsewhere after.app]
  | .readError stream => if stream = c then [.hangUp] else []
  | .written request status =>
      if status < 0 ∧ before.uv.pending request = some c then [.writeFailed]
      else []
  | .closed _ => []
  | .stop walk => if .conn c ∈ walk then [.stop] else []

variable [Json J]

/-- What a connection sees of a run. -/
def views (server : Server J A) (c : Nat) :
    Loop llhttp A → List Event → List (PlusWeb.Conn.Event A)
  | _, [] => []
  | loop, event :: events =>
      (if loop.terminated then []
        else loop.view c (loop.step server event) event) ++
        views server c (loop.step server event) events

/-- A connection of the server and a connection on its own. -/
structure Mirrors
    (loop : Loop llhttp A) (c : Nat) (conn : PlusWeb.Conn llhttp J A) :
    Prop where
  /-- It is not accepted yet. -/
  fresh : loop.conns.next ≤ c →
    conn.parser = HttpParser.new llhttp kMaxHeaderBytes ∧
      conn.session.closing = false
  /-- Its `Conn` is there. -/
  object : ∀ own, loop.conns.object c = some own →
    conn.parser = own.parser ∧ conn.session.closing = own.closing
  /-- Its `Conn` has been deleted. -/
  gone : c < loop.conns.next → loop.conns.object c = none →
    conn.session.closing = true
  app : conn.session.live = true → conn.session.app = loop.app
  terminated : conn.session.terminated = true → loop.terminated = true
  waiting : (loop.waiting c).Sublist conn.session.responses

/-! ## Connections leave each other alone -/

omit [Json J] in
/--
What a server holds for a connection, apart from libuv, and how many
connections it has accepted.
-/
def belongings (c : Nat) (loop : Loop llhttp A) :
    Option (Conn llhttp) × List (StdString × StdString) × Nat :=
  (loop.conns.object c, loop.waiting c, loop.conns.next)

omit [Json J] in
theorem waiting_append
    {before after : Loop llhttp A} {wr : WriteReq}
    (objects :
      after.writeReqs.objects = before.writeReqs.objects ++ [wr])
    (c : Nat) :
    after.waiting c =
      before.waiting c ++
        if wr.handle = some c then [(wr.head, wr.body)] else [] := by
  unfold waiting
  rw [objects, List.filter_append, List.map_append]
  by_cases own : wr.handle = some c
  · simp [own]
  · simp [own]

omit [Json J] in
theorem closeConn_writeReqs (c : Nat) (loop : Loop llhttp A) :
    (loop.closeConn c).writeReqs = loop.writeReqs := by
  apply
    withConn_ind (motive := fun after => after.writeReqs = loop.writeReqs)
  · intro conn
    split_ifs <;> rfl
  · rfl

omit [Json J] in
theorem closeConn_calls (c : Nat) (loop : Loop llhttp A) :
    (loop.closeConn c).calls = loop.calls := by
  apply withConn_ind (motive := fun after => after.calls = loop.calls)
  · intro conn
    split_ifs <;> rfl
  · rfl

omit [Json J] in
theorem closeConn_app (c : Nat) (loop : Loop llhttp A) :
    (loop.closeConn c).app = loop.app := by
  apply withConn_ind (motive := fun after => after.app = loop.app)
  · intro conn
    split_ifs <;> rfl
  · rfl

omit [Json J] in
theorem closeConn_waiting (c other : Nat) (loop : Loop llhttp A) :
    (loop.closeConn other).waiting c = loop.waiting c := by
  rw [waiting, closeConn_writeReqs, waiting]

omit [Json J] in
theorem closeConn_belongings
    {c other : Nat} (apart : c ≠ other) (loop : Loop llhttp A) :
    (loop.closeConn other).belongings c = loop.belongings c := by
  rw [belongings, belongings, closeConn_waiting, Prod.mk.injEq]
  apply
    withConn_ind (motive := fun after =>
      after.conns.object c = loop.conns.object c ∧
        (loop.waiting c, after.conns.next) =
          (loop.waiting c, loop.conns.next))
  · intro conn
    split_ifs
    · exact ⟨rfl, rfl⟩
    · rw [Heap.store_object, if_neg apart]
      exact ⟨rfl, rfl⟩
  · exact ⟨rfl, rfl⟩

omit [Json J] in
/-- `send`, if `uv_write` takes the request over. -/
theorem send_taken
    {loop : Loop llhttp A} {c : Nat} {conn : Conn llhttp}
    (object : loop.conns.object c = some conn)
    {kernel : Nat → KernelAnswer} {room : Nat}
    (taken : kernel loop.writeReqs.next = .takes room)
    (head body : StdString) :
    loop.send kernel c head body =
      { loop with
        writeReqs :=
          (loop.writeReqs.new
              ⟨loop.writeReqs.next, none, head, body⟩).store
            loop.writeReqs.next ⟨loop.writeReqs.next, some c, head, body⟩
        uv := loop.uv.write loop.writeReqs.next c } := by
  simp only [Loop.send, withConn, object, taken]

omit [Json J] in
/-- `send`, if `uv_write` fails. -/
theorem send_failed
    {loop : Loop llhttp A} (owned : loop.Owned) {c : Nat}
    {conn : Conn llhttp} (object : loop.conns.object c = some conn)
    {kernel : Nat → KernelAnswer}
    (failed : kernel loop.writeReqs.next = .fails)
    (head body : StdString) :
    loop.send kernel c head body =
      Loop.closeConn c
        { loop with
          writeReqs :=
            (loop.writeReqs.new
                ⟨loop.writeReqs.next, none, head, body⟩).delete
              loop.writeReqs.next } := by
  rcases owned.conn_cases object with ⟨data, -⟩
  simp only [Loop.send, withConn, object, failed, data]

omit [Json J] in
/-- `send` creates one request, and calls no handler. -/
theorem send_numbers
    {loop : Loop llhttp A} (owned : loop.Owned) {c : Nat}
    {conn : Conn llhttp} (object : loop.conns.object c = some conn)
    (kernel : Nat → KernelAnswer) (head body : StdString) :
    (loop.send kernel c head body).writeReqs.next =
        loop.writeReqs.next + 1 ∧
      (loop.send kernel c head body).calls = loop.calls := by
  cases answer : kernel loop.writeReqs.next with
  | takes room =>
      rw [send_taken object answer]
      exact ⟨rfl, rfl⟩
  | fails =>
      rw [send_failed owned object answer, closeConn_writeReqs,
        closeConn_calls]
      exact ⟨rfl, rfl⟩

omit [Json J] in
theorem send_belongings
    {loop : Loop llhttp A} (owned : loop.Owned) {c other : Nat}
    (apart : c ≠ other) (there : loop.Live other)
    (kernel : Nat → KernelAnswer) (head body : StdString) :
    (loop.send kernel other head body).belongings c = loop.belongings c := by
  rcases there with ⟨conn, object⟩
  cases answer : kernel loop.writeReqs.next with
  | takes room =>
      rw [send_taken object answer]
      have objects :=
        Heap.objects_new_store
          (⟨loop.writeReqs.next, none, head, body⟩ : WriteReq)
          ⟨loop.writeReqs.next, some other, head, body⟩ loop.writeReqs
      refine Prod.ext rfl (Prod.ext ?_ rfl)
      exact (waiting_append objects c).trans (by simp [Ne.symm apart, belongings])
  | fails =>
      rw [send_failed owned object answer]
      refine (closeConn_belongings apart _).trans ?_
      simp only [belongings, waiting, owned.writeReqs.objects_new_delete]

/-- A read of another connection. -/
theorem onRead_belongings
    (server : Server J A) {loop : Loop llhttp A} (owned : loop.Owned)
    {c other : Nat} (apart : c ≠ other) (there : loop.Live other)
    (data : StdString) :
    (loop.onRead server other data).belongings c = loop.belongings c := by
  rcases there with ⟨conn, object⟩
  rcases owned.conn_cases object with ⟨own, -⟩
  have there : loop.Live other := ⟨conn, object⟩
  let kept (after : Loop llhttp A) : Prop :=
    loop.Since after ∧ after.belongings c = loop.belongings c
  have handler (request : HttpRequest J) (keepAlive : Bool) :
      Action.Preserves kept
        ((onRequest server other other : RequestHandler J (Loop llhttp A))
          request keepAlive) := by
    intro middle before
    refine
      ⟨Since.onRequest server there there request keepAlive middle before.1,
        ?_⟩
    unfold onRequest
    split
    · exact before.2
    · dsimp only
      split
      · exact before.2
      · change (Loop.send _ _ _ _ _).belongings c = _
        refine (send_belongings ?_ apart ?_ ..).trans ?_
        · exact Since.owned (before.1.congr rfl rfl rfl rfl)
        · exact before.1.live other there
        · exact before.2
  have ran :
      kept
        (conn.parser.execute
          (onRequest server other other :
            RequestHandler J (Loop llhttp A)) data
          { loop with shouldClose := false }).2 := by
    rw [HttpParser.execute_snd]
    apply RequestHandler.preserves_each handler
    exact ⟨(Since.refl owned).congr rfl rfl rfl rfl, rfl⟩
  rw [onRead, withConn_of_object object]
  dsimp only
  rw [own, withConn_of_object object]
  generalize
    conn.parser.execute
      (onRequest server other other : RequestHandler J (Loop llhttp A)) data
      { loop with shouldClose := false } = executed at ran ⊢
  rcases executed with ⟨ending, middle⟩
  obtain ⟨since, same⟩ : kept middle := ran
  obtain ⟨own', object'⟩ := since.live other there
  rw [← same]
  cases ending with
  | accepted parser =>
      have stored :
          belongings c
            { middle with
              conns :=
                middle.conns.store other { own' with parser := parser } } =
            middle.belongings c := by
        refine Prod.ext ?_ rfl
        simp only [belongings, Heap.store_object, if_neg apart]
      simp only [afterExecute, withConn, object']
      split_ifs
      · exact (closeConn_belongings apart _).trans stored
      · exact stored
  | failed status reason =>
      simp only [afterExecute, withConn, object']
      split
      · refine (closeConn_belongings apart _).trans ?_
        exact
          send_belongings since.owned apart ⟨own', object'⟩ server.kernel _ []
      · rfl
  | escaped exception => rfl

/-! ## A read -/

/-- While the handler runs, a connection of the server and one on its own. -/
structure Tracks
    (loop : Loop llhttp A) (c : Nat) (parser : HttpParser llhttp)
    (session : Session J A) : Prop where
  owned : loop.Owned
  object : loop.conns.object c = some ⟨c, parser, session.closing⟩
  shouldClose : loop.shouldClose = session.shouldClose
  app : loop.app = session.app
  terminated : loop.terminated = session.terminated
  waiting : (loop.waiting c).Sublist session.responses

/--
The values of `$status` that are still asked for, up to a later state of
the server, are the same.
-/
def SameStatus
    (memory alone : Nat → Int) (last loop : Loop llhttp A)
    (session : Session J A) : Prop :=
  ∀ call, loop.calls + call < last.calls →
    alone (session.log.length + 1 + 2 * call) = memory (loop.calls + call)

/--
The answers of the kernel that are still asked for, up to a later state of
the server, are the same.
-/
def SameKernel
    (kernel alone : Nat → KernelAnswer) (last loop : Loop llhttp A)
    (session : Session J A) : Prop :=
  session.closing = false →
    ∀ write, loop.writeReqs.next + write < last.writeReqs.next →
      alone (session.stream.writes + write) =
        kernel (loop.writeReqs.next + write)

/-- Between two states each call left two entries in the log. -/
def CountsCalls
    (loop loop' : Loop llhttp A) (session session' : Session J A) : Prop :=
  loop.calls ≤ loop'.calls ∧
    session'.log.length + 2 * loop.calls =
      session.log.length + 2 * loop'.calls

/--
Between two states each write request was taken over, unless the
connection has been closed.
-/
def CountsWrites
    (loop loop' : Loop llhttp A) (session session' : Session J A) : Prop :=
  loop.writeReqs.next ≤ loop'.writeReqs.next ∧
    (session'.closing = false → session.closing = false ∧
      session'.stream.writes + loop.writeReqs.next =
        session.stream.writes + loop'.writeReqs.next)

section Counts

variable {loop loop' loop'' last : Loop llhttp A}
  {session session' session'' : Session J A}

omit [Json J] in
theorem SameStatus.later
    {memory alone : Nat → Int}
    (same : SameStatus memory alone last loop session)
    (counts : CountsCalls loop loop' session session') :
    SameStatus memory alone last loop' session' := by
  rcases counts with ⟨mono, count⟩
  intro call below
  have asked := same (loop'.calls - loop.calls + call) (by omega)
  have index :
      session.log.length + 1 + 2 * (loop'.calls - loop.calls + call) =
        session'.log.length + 1 + 2 * call := by
    omega
  have number :
      loop.calls + (loop'.calls - loop.calls + call) =
        loop'.calls + call := by
    omega
  rw [index, number] at asked
  exact asked

omit [Json J] in
theorem SameKernel.later
    {kernel alone : Nat → KernelAnswer}
    (same : SameKernel kernel alone last loop session)
    (counts : CountsWrites loop loop' session session') :
    SameKernel kernel alone last loop' session' := by
  rcases counts with ⟨mono, count⟩
  intro open_ write below
  rcases count open_ with ⟨before, writes⟩
  have asked :=
    same before (loop'.writeReqs.next - loop.writeReqs.next + write)
      (by omega)
  have index :
      session.stream.writes +
          (loop'.writeReqs.next - loop.writeReqs.next + write) =
        session'.stream.writes + write := by
    omega
  have number :
      loop.writeReqs.next +
          (loop'.writeReqs.next - loop.writeReqs.next + write) =
        loop'.writeReqs.next + write := by
    omega
  rw [index, number] at asked
  exact asked

omit [Json J] in
theorem CountsCalls.trans
    (first : CountsCalls loop loop' session session')
    (second : CountsCalls loop' loop'' session' session'') :
    CountsCalls loop loop'' session session'' := by
  rcases first with ⟨mono, count⟩
  rcases second with ⟨mono', count'⟩
  exact ⟨mono.trans mono', by omega⟩

omit [Json J] in
theorem CountsWrites.trans
    (first : CountsWrites loop loop' session session')
    (second : CountsWrites loop' loop'' session' session'') :
    CountsWrites loop loop'' session session'' := by
  rcases first with ⟨mono, count⟩
  rcases second with ⟨mono', count'⟩
  refine ⟨mono.trans mono', fun open_ => ?_⟩
  rcases count' open_ with ⟨middle, later⟩
  rcases count middle with ⟨before, early⟩
  exact ⟨before, by omega⟩

end Counts

omit [Json J] in
/-- A request that `uv_write` did not take over is forgotten. -/
theorem Owned.discard
    {loop : Loop llhttp A} (owned : loop.Owned) (wr : WriteReq) :
    Owned
      { loop with
        writeReqs :=
          (loop.writeReqs.new wr).delete loop.writeReqs.next } := by
  have held :
      (loop.writeReqs.new wr).object loop.writeReqs.next = some wr := by
    rw [Heap.new_object, if_pos rfl]
  refine
    ⟨owned.faults, owned.conns, (owned.writeReqs.new _).delete held,
      owned.conn, ?_, ?_⟩
  · rw [owned.writeReqs.delete_new_object]
    exact owned.pending
  · rw [owned.writeReqs.delete_new_object]
    exact owned.held

namespace Tracks

variable {loop : Loop llhttp A} {c : Nat} {parser : HttpParser llhttp}
  {session : Session J A}

omit [Json J] in
theorem closeConn (tracks : loop.Tracks c parser session) :
    (loop.closeConn c).Tracks c parser session.closeConn := by
  rcases tracks with
    ⟨owned, object, shouldClose, app, terminated, waiting⟩
  have kept := ((Since.refl owned).closeConn ⟨_, object⟩).owned
  have waits : ((loop.closeConn c).waiting c).Sublist
      session.closeConn.responses := by
    rw [closeConn_waiting, Session.closeConn_responses]
    exact waiting
  rw [Loop.closeConn, withConn_of_object object] at kept waits ⊢
  unfold Session.closeConn at waits ⊢
  cases closing : session.closing with
  | true =>
      simp only [closing, if_true] at kept waits object ⊢
      refine ⟨kept, ?_, shouldClose, app, terminated, waits⟩
      rw [object, closing]
  | false =>
      simp only [closing, Bool.false_eq_true, if_false] at kept waits ⊢
      refine ⟨kept, ?_, shouldClose, app, terminated, waits⟩
      rw [Heap.store_object, if_pos rfl]

omit [Json J] in
theorem send
    (tracks : loop.Tracks c parser session)
    {kernel kernel' : Nat → KernelAnswer}
    (answer : session.closing = false →
      kernel' session.stream.writes = kernel loop.writeReqs.next)
    (head body : StdString) :
    (loop.send kernel c head body).Tracks c parser
      (session.send kernel' head body) := by
  have object := tracks.object
  have kept :=
    ((Since.refl tracks.owned).send ⟨_, object⟩ kernel head body).owned
  have replied := session.send_responses kernel' head body
  cases taken : kernel loop.writeReqs.next with
  | takes room =>
      have waits :
          (loop.send kernel c head body).waiting c =
            loop.waiting c ++ [(head, body)] := by
        rw [send_taken object taken]
        have objects :=
          Heap.objects_new_store
            (⟨loop.writeReqs.next, none, head, body⟩ : WriteReq)
            ⟨loop.writeReqs.next, some c, head, body⟩ loop.writeReqs
        exact (waiting_append objects c).trans (by simp)
      have sublist :
          ((loop.send kernel c head body).waiting c).Sublist
            (session.send kernel' head body).responses := by
        rw [waits, replied]
        exact tracks.waiting.append_right _
      rw [send_taken object taken] at kept sublist ⊢
      obtain ⟨closing, shouldClose, app, terminated⟩ :
          (session.send kernel' head body).closing = session.closing ∧
            (session.send kernel' head body).shouldClose =
                session.shouldClose ∧
              (session.send kernel' head body).app = session.app ∧
                (session.send kernel' head body).terminated =
                  session.terminated := by
        unfold Session.send
        cases closing : session.closing with
        | true => simp [Session.note, closing]
        | false => simp [Session.note, closing, answer closing, taken]
      refine
        ⟨kept, ?_, tracks.shouldClose.trans shouldClose.symm,
          tracks.app.trans app.symm, tracks.terminated.trans terminated.symm,
          sublist⟩
      rw [closing]
      exact object
  | fails =>
      have failed :
          Tracks
            { loop with
              writeReqs :=
                (loop.writeReqs.new
                    ⟨loop.writeReqs.next, none, head, body⟩).delete
                  loop.writeReqs.next }
            c parser (session.note (.sent head body)) := by
        refine
          ⟨tracks.owned.discard _, object, tracks.shouldClose, tracks.app,
            tracks.terminated, ?_⟩
        have same := tracks.owned.writeReqs.objects_new_delete
          (⟨loop.writeReqs.next, none, head, body⟩ : WriteReq)
        simp only [Loop.waiting, same, Session.responses, Session.note,
          List.filterMap_append]
        exact tracks.waiting.trans (List.sublist_append_left ..)
      rw [send_failed tracks.owned object taken]
      have unfolded :
          session.send kernel' head body =
            (session.note (.sent head body)).closeConn := by
        unfold Session.send Session.closeConn
        cases closing : session.closing with
        | true => simp [Session.note, closing]
        | false => simp [Session.note, closing, answer closing, taken]
      rw [unfolded]
      exact failed.closeConn

omit [Json J] in
theorem send_counts
    (tracks : loop.Tracks c parser session)
    {kernel kernel' : Nat → KernelAnswer}
    (answer : session.closing = false →
      kernel' session.stream.writes = kernel loop.writeReqs.next)
    (head body : StdString) :
    CountsWrites loop (loop.send kernel c head body) session
      (session.send kernel' head body) := by
  have object := tracks.object
  rcases send_numbers tracks.owned object kernel head body with ⟨next, -⟩
  rw [CountsWrites, next]
  refine ⟨Nat.le_succ _, ?_⟩
  cases taken : kernel loop.writeReqs.next with
  | takes room =>
      unfold Session.send
      cases closing : session.closing with
      | true => simp [Session.note, closing]
      | false =>
          intro _
          have writes :
              ((session.note (.sent head body)).stream.offer room
                (Session.buffers head body)).writes =
                  session.stream.writes + 1 := by
            unfold Stream.offer
            split_ifs <;> rfl
          simp [Session.note, closing, answer closing, taken] at writes ⊢
          omega
  | fails =>
      have closed : (session.send kernel' head body).closing = true := by
        unfold Session.send
        cases closing : session.closing with
        | true => simp [Session.note, closing]
        | false =>
            simp [Session.note, closing, answer closing, taken,
              Session.closeConn_closing]
      intro open_
      rw [closed] at open_
      cases open_

/-- One call of the handler, in the server and alone. -/
theorem onRequest
    {server : Server J A} {last : Loop llhttp A} {memory : Nat → Int}
    {kernel : Nat → KernelAnswer} (request : HttpRequest J)
    (keepAlive : Bool) (tracks : loop.Tracks c parser session)
    (status : SameStatus server.memory memory last loop session)
    (kernels : SameKernel server.kernel kernel last loop session)
    {after : Outcome CxxException × Loop llhttp A}
    {alone : Outcome CxxException × Session J A}
    (ran : Loop.onRequest server c c request keepAlive loop = after)
    (ranAlone :
      { server with memory := memory, kernel := kernel }.onRequest request
        keepAlive session = alone)
    (calls : after.2.calls ≤ last.calls)
    (writes : after.2.writeReqs.next ≤ last.writeReqs.next) :
    after.1 = alone.1 ∧ after.2.Tracks c parser alone.2 ∧
      CountsWrites loop after.2 session alone.2 ∧
        (after.1 = .returned → CountsCalls loop after.2 session alone.2) := by
  let noted := session.note (.delivered request keepAlive)
  have notedLog : noted.log.length = session.log.length + 1 := by
    simp [noted, Session.note]
  let served :=
    handleRequest server.setup server.callbacks (server.memory loop.calls)
      request keepAlive loop.shouldClose loop.app
  have keptOwned : (loop.keep served).Owned :=
    Since.owned ((Since.refl tracks.owned).congr rfl rfl rfl rfl)
  have kept : Tracks (loop.keep served) c parser (noted.keep served) := by
    refine
      ⟨keptOwned, tracks.object, rfl, rfl, tracks.terminated, ?_⟩
    have responses : (noted.keep served).responses = session.responses := by
      simp [noted, Session.responses, Session.note, Session.keep,
        LogEntry.response]
    rw [responses]
    exact tracks.waiting
  have sameServed (more : loop.calls < last.calls) :
      { server with memory := memory, kernel := kernel }.serve request
        keepAlive noted = served := by
    have asked := status 0 more
    simp only [Nat.mul_zero, Nat.add_zero] at asked
    simp only [Server.serve, notedLog, asked, served, tracks.shouldClose,
      tracks.app]
    rfl
  simp only [Loop.onRequest, tracks.object] at ran
  cases reply : served.reply with
  | error exception =>
      rw [reply] at ran
      subst ran
      have same := sameServed (Nat.lt_of_succ_le calls)
      rw [Server.onRequest_error (by rw [same]; exact reply), same] at ranAlone
      subst ranAlone
      refine ⟨rfl, kept, ⟨le_rfl, fun open_ => ⟨open_, rfl⟩⟩, ?_⟩
      intro returned
      cases returned
  | ok pair =>
      rcases pair with ⟨head, body⟩
      rw [reply] at ran
      subst ran
      rcases send_numbers keptOwned tracks.object server.kernel head body with
        ⟨next, count⟩
      have same := sameServed (by rw [count] at calls; exact calls)
      rw [Server.onRequest_ok (by rw [same]; exact reply), same] at ranAlone
      subst ranAlone
      have answer (open_ : (noted.keep served).closing = false) :
          kernel (noted.keep served).stream.writes =
            server.kernel (loop.keep served).writeReqs.next := by
        rw [next] at writes
        exact kernels open_ 0 writes
      refine ⟨rfl, kept.send answer head body, ?_, ?_⟩
      · exact kept.send_counts answer head body
      · intro _
        refine ⟨?_, ?_⟩
        · rw [count]
          exact Nat.le_succ _
        · have keptLog :
              (noted.keep served).log.length = session.log.length + 1 :=
            notedLog
          have called : (loop.keep served).calls = loop.calls + 1 := rfl
          rw [count, called, Session.send_log, List.length_append, keptLog,
            List.length_singleton]
          omega

/-- Calls and requests are only ever added. -/
theorem each_numbers
    (server : Server J A) {loop : Loop llhttp A} (owned : loop.Owned)
    {c : Nat} (there : loop.Live c)
    (deliveries : List (HttpRequest J × Bool)) :
    loop.calls ≤
        (RequestHandler.each (Loop.onRequest server c c) deliveries
          loop).2.calls ∧
      loop.writeReqs.next ≤
        (RequestHandler.each (Loop.onRequest server c c) deliveries
          loop).2.writeReqs.next := by
  let more (after : Loop llhttp A) : Prop :=
    loop.Since after ∧ loop.calls ≤ after.calls ∧
      loop.writeReqs.next ≤ after.writeReqs.next
  have handler (request : HttpRequest J) (keepAlive : Bool) :
      Action.Preserves more
        ((Loop.onRequest server c c : RequestHandler J (Loop llhttp A))
          request keepAlive) := by
    intro middle before
    refine
      ⟨Since.onRequest server there there request keepAlive middle before.1,
        ?_⟩
    obtain ⟨conn, object⟩ := before.1.live c there
    rcases before.2 with ⟨calls, writes⟩
    simp only [Loop.onRequest, object]
    split
    · exact ⟨calls.trans (Nat.le_succ _), writes⟩
    · next served _ head body _ =>
        have kept :
            Owned
              (middle.keep
                (handleRequest server.setup server.callbacks
                  (server.memory middle.calls) request keepAlive
                  middle.shouldClose middle.app)) :=
          Since.owned (before.1.congr rfl rfl rfl rfl)
        rcases send_numbers kept object server.kernel head body with
          ⟨next, count⟩
        rw [next, count]
        exact ⟨calls.trans (Nat.le_succ _), writes.trans (Nat.le_succ _)⟩
  have kept : more
      (RequestHandler.each (Loop.onRequest server c c) deliveries loop).2 :=
    RequestHandler.preserves_each handler deliveries loop
      ⟨Since.refl owned, le_rfl, le_rfl⟩
  exact kept.2

/-- All calls of the handler in one read. -/
theorem each
    {server : Server J A} {last : Loop llhttp A} {memory : Nat → Int}
    {kernel : Nat → KernelAnswer}
    (deliveries : List (HttpRequest J × Bool))
    (tracks : loop.Tracks c parser session)
    (status : SameStatus server.memory memory last loop session)
    (kernels : SameKernel server.kernel kernel last loop session)
    {after : Outcome CxxException × Loop llhttp A}
    {alone : Outcome CxxException × Session J A}
    (ran :
      RequestHandler.each (Loop.onRequest server c c) deliveries loop = after)
    (ranAlone :
      { server with memory := memory, kernel := kernel }.onRequest.each
        deliveries session = alone)
    (calls : after.2.calls ≤ last.calls)
    (writes : after.2.writeReqs.next ≤ last.writeReqs.next) :
    after.1 = alone.1 ∧ after.2.Tracks c parser alone.2 ∧
      CountsWrites loop after.2 session alone.2 ∧
        (after.1 = .returned → CountsCalls loop after.2 session alone.2) := by
  induction deliveries generalizing loop session with
  | nil =>
      subst ran ranAlone
      exact
        ⟨rfl, tracks, ⟨le_rfl, fun open_ => ⟨open_, rfl⟩⟩,
          fun _ => ⟨le_rfl, rfl⟩⟩
  | cons delivery deliveries induction =>
      rcases delivery with ⟨request, keepAlive⟩
      rw [RequestHandler.each, Action.seq] at ran ranAlone
      cases first : Loop.onRequest server c c request keepAlive loop with
      | mk outcome middle =>
      cases firstAlone :
          { server with memory := memory, kernel := kernel }.onRequest
            request keepAlive session with
      | mk outcomeAlone sessionMiddle =>
      rw [first] at ran
      rw [firstAlone] at ranAlone
      have there : loop.Live c := ⟨_, tracks.object⟩
      have since : loop.Since middle := by
        have kept :=
          Since.onRequest server there there request keepAlive loop
            (Since.refl tracks.owned)
        rw [first] at kept
        exact kept
      have bounds :
          middle.calls ≤ last.calls ∧
            middle.writeReqs.next ≤ last.writeReqs.next := by
        cases outcome with
        | threw exception =>
            subst ran
            exact ⟨calls, writes⟩
        | returned =>
            rcases each_numbers server since.owned (since.live c there)
              deliveries with ⟨moreCalls, moreWrites⟩
            dsimp only at ran
            rw [ran] at moreCalls moreWrites
            exact ⟨moreCalls.trans calls, moreWrites.trans writes⟩
      obtain ⟨same, tracked, countsWrites, countsCalls⟩ :=
        tracks.onRequest request keepAlive status kernels first firstAlone
          bounds.1 bounds.2
      dsimp only at same tracked countsWrites countsCalls
      subst same
      cases outcome with
      | threw exception =>
          subst ran ranAlone
          refine ⟨rfl, tracked, countsWrites, ?_⟩
          intro returned
          cases returned
      | returned =>
          obtain ⟨ends, afterTracks, afterWrites, afterCalls⟩ :=
            induction tracked (status.later (countsCalls rfl))
              (kernels.later countsWrites) ran ranAlone
          exact
            ⟨ends, afterTracks, countsWrites.trans afterWrites,
              fun returned => (countsCalls rfl).trans (afterCalls returned)⟩

omit [Json J] in
theorem mirrors (tracks : loop.Tracks c parser session) :
    loop.Mirrors c ⟨parser, session⟩ := by
  have object := tracks.object
  refine
    { fresh := ?_
      object := ?_
      gone := ?_
      app := fun _ => tracks.app.symm
      terminated := tracks.terminated.trans
      waiting := tracks.waiting }
  · intro beyond
    exact absurd (tracks.owned.conns.lt_next object) beyond.not_gt
  · intro own found
    rw [object] at found
    obtain rfl := Option.some.inj found
    exact ⟨rfl, rfl⟩
  · intro _ none
    rw [object] at none
    cases none

omit [Json J] in
theorem terminate (tracks : loop.Tracks c parser session) :
    Tracks { loop with terminated := true } c parser
      { session with terminated := true } :=
  ⟨Since.owned ((Since.refl tracks.owned).congr rfl rfl rfl rfl),
    tracks.object, tracks.shouldClose, tracks.app, rfl, tracks.waiting⟩

omit [Json J] in
theorem store
    (tracks : loop.Tracks c parser session) (next : HttpParser llhttp) :
    Tracks
      { loop with
        conns := loop.conns.store c ⟨c, next, session.closing⟩ }
      c next session := by
  refine
    ⟨Since.owned ((Since.refl tracks.owned).store tracks.object rfl rfl), ?_,
      tracks.shouldClose, tracks.app, tracks.terminated, tracks.waiting⟩
  rw [Heap.store_object, if_pos rfl]

/--
`onRead` after `execute`, in the server and alone.  A connection that
stays open has sent nothing more.
-/
theorem afterExecute
    {server : Server J A} {last after : Loop llhttp A}
    {kernel : Nat → KernelAnswer} {executed : Executed llhttp}
    (tracks : loop.Tracks c parser session) (memory : Nat → Int)
    (kernels : SameKernel server.kernel kernel last loop session)
    (ran : Loop.afterExecute server c c (executed, loop) = after)
    (writes : after.writeReqs.next ≤ last.writeReqs.next) :
    let alone :=
      Conn.afterExecute { server with memory := memory, kernel := kernel }
        parser (executed, session)
    after.Mirrors c alone ∧
      (alone.session.live = true →
        alone.session.log = session.log ∧
          alone.session.stream = session.stream ∧
            alone.session.closing = session.closing ∧
              after.writeReqs.next = loop.writeReqs.next ∧
                ∃ next, executed = .accepted next) := by
  intro alone
  have object := tracks.object
  cases executed with
  | accepted next =>
      have stored := tracks.store next
      simp only [Loop.afterExecute, withConn_of_object object] at ran
      have sameAlone :
          alone =
            ⟨next,
              if session.shouldClose then session.closeConn else session⟩ :=
        rfl
      cases close : session.shouldClose with
      | true =>
          rw [if_pos (tracks.shouldClose.trans close)] at ran
          subst ran
          rw [sameAlone, if_pos close]
          refine ⟨stored.closeConn.mirrors, fun live => ?_⟩
          simp [Session.closeConn_live] at live
      | false =>
          have open_ : ¬ session.shouldClose = true := by
            simp [close]
          rw [if_neg (by rw [tracks.shouldClose]; exact open_)] at ran
          subst ran
          rw [sameAlone, if_neg open_]
          exact
            ⟨stored.mirrors, fun _ => ⟨rfl, rfl, rfl, rfl, next, rfl⟩⟩
  | failed status reason =>
      simp only [Loop.afterExecute, withConn_of_object object] at ran
      cases made : errorResponse J status with
      | error exception =>
          rw [made] at ran
          have sameAlone :
              alone = ⟨parser, { session with terminated := true }⟩ := by
            simp only [alone, Conn.afterExecute, made]
          rw [sameAlone]
          subst ran
          refine ⟨tracks.terminate.mirrors, fun live => ?_⟩
          simp [Session.live] at live
      | ok reply =>
          rw [made] at ran
          have sameAlone :
              alone =
                ⟨parser,
                  ({ session.send kernel reply [] with
                    shouldClose := true } : Session J A).closeConn⟩ := by
            simp only [alone, Conn.afterExecute, made]
          rw [sameAlone]
          subst ran
          rcases send_numbers tracks.owned object server.kernel reply [] with
            ⟨next, -⟩
          rw [closeConn_writeReqs] at writes
          have answer (open_ : session.closing = false) :
              kernel session.stream.writes =
                server.kernel loop.writeReqs.next := by
            apply kernels open_ 0
            rw [Nat.add_zero, ← Nat.add_one_le_iff, ← next]
            exact writes
          have sent := tracks.send answer reply []
          have flagged :
              Tracks
                { loop.send server.kernel c reply [] with shouldClose := true }
                c parser
                { session.send kernel reply [] with shouldClose := true } :=
            ⟨Since.owned ((Since.refl sent.owned).congr rfl rfl rfl rfl),
              sent.object, rfl, sent.app, sent.terminated, sent.waiting⟩
          refine ⟨flagged.closeConn.mirrors, fun live => ?_⟩
          simp [Session.closeConn_live] at live
  | escaped exception =>
      subst ran
      refine ⟨tracks.terminate.mirrors, fun live => ?_⟩
      simp [alone, Conn.afterExecute, Session.live] at live

end Tracks

/-- `onRead` after `execute` calls no handler. -/
theorem afterExecute_numbers
    (server : Server J A) {loop : Loop llhttp A} (owned : loop.Owned)
    {c : Nat} (there : loop.Live c) (executed : Executed llhttp) :
    (Loop.afterExecute server c c (executed, loop)).calls = loop.calls ∧
      loop.writeReqs.next ≤
        (Loop.afterExecute server c c (executed, loop)).writeReqs.next := by
  rcases there with ⟨conn, object⟩
  cases executed with
  | accepted next =>
      simp only [Loop.afterExecute, withConn_of_object object]
      split_ifs
      · rw [closeConn_calls, closeConn_writeReqs]
        exact ⟨rfl, le_rfl⟩
      · exact ⟨rfl, le_rfl⟩
  | failed status reason =>
      rcases send_numbers owned object server.kernel
        ((errorResponse J status).toOption.getD []) [] with ⟨next, count⟩
      simp only [Loop.afterExecute, withConn_of_object object]
      cases made : errorResponse J status with
      | error exception => exact ⟨rfl, le_rfl⟩
      | ok reply =>
          rw [made] at next count
          rw [closeConn_calls, closeConn_writeReqs]
          exact ⟨count, (Nat.le_succ _).trans_eq next.symm⟩
  | escaped exception => exact ⟨rfl, le_rfl⟩

omit [Json J] in
/-- A connection that is read from is there in both, and open. -/
theorem Mirrors.reading
    {loop : Loop llhttp A} (owned : loop.Owned) {c : Nat}
    {conn : PlusWeb.Conn llhttp J A} (mirrors : loop.Mirrors c conn)
    (running : loop.terminated = false)
    (reading : loop.uv.phase (.conn c) = .reading) :
    conn.session.live = true ∧
      Tracks { loop with shouldClose := false } c conn.parser
        { conn.session with shouldClose := false } := by
  obtain ⟨own, object⟩ :=
    owned.live_of_phase (by simp [reading])
      (by simp [reading] : loop.uv.phase (.conn c) ≠ .closed)
  rcases mirrors.object own object with ⟨parser, closing⟩
  obtain ⟨data, idle⟩ : own.data = c ∧ own.closing = false := by
    rcases owned.conn_cases object with ⟨data, ⟨idle, -⟩ | ⟨-, -, phase⟩⟩
    · exact ⟨data, idle⟩
    · rw [reading] at phase
      cases phase
  have alive : conn.session.terminated = false := by
    rw [Bool.eq_false_iff]
    intro terminated
    rw [mirrors.terminated terminated] at running
    cases running
  have live : conn.session.live = true := by
    simp [Session.live, closing, idle, alive]
  refine
    ⟨live, Since.owned ((Since.refl owned).congr rfl rfl rfl rfl), ?_, rfl,
      (mirrors.app live).symm, running.trans alive.symm, mirrors.waiting⟩
  rw [object, parser, closing, ← data]

/-- A read, in the server and alone. -/
theorem Mirrors.onRead
    {server : Server J A} {loop : Loop llhttp A} (owned : loop.Owned)
    {c : Nat} {conn : PlusWeb.Conn llhttp J A} (mirrors : loop.Mirrors c conn)
    (running : loop.terminated = false)
    (reading : loop.uv.phase (.conn c) = .reading) (data : StdString)
    {memory : Nat → Int} {kernel : Nat → KernelAnswer}
    (status :
      SameStatus server.memory memory (loop.onRead server c data) loop
        conn.session)
    (kernels :
      SameKernel server.kernel kernel (loop.onRead server c data) loop
        conn.session) :
    let after := loop.onRead server c data
    let alone := { server with memory := memory, kernel := kernel }
    after.Mirrors c (conn.onRead alone data) ∧
      (RequestHandler.each (onRequest server c c)
          (conn.parser.delivers J data)
          { loop with shouldClose := false }).1 =
        (alone.onRequest.each (conn.parser.delivers J data)
          { conn.session with shouldClose := false }).1 ∧
      ((conn.onRead alone data).session.live = true →
        CountsCalls loop after conn.session
            (conn.onRead alone data).session ∧
          CountsWrites loop after conn.session
            (conn.onRead alone data).session) := by
  intro after alone
  rcases mirrors.reading owned running reading with ⟨live, start⟩
  have startThere : Live { loop with shouldClose := false } c :=
    ⟨_, start.object⟩
  cases ran :
      RequestHandler.each (onRequest server c c)
        (conn.parser.delivers J data)
        { loop with shouldClose := false } with
  | mk outcome middle =>
  cases ranAlone :
      alone.onRequest.each (conn.parser.delivers J data)
        { conn.session with shouldClose := false } with
  | mk outcomeAlone session =>
  have since : Since { loop with shouldClose := false } middle := by
    have kept :=
      RequestHandler.preserves_each
        (fun request keepAlive =>
          Since.onRequest server startThere startThere request keepAlive)
        (conn.parser.delivers J data) _ (Since.refl start.owned)
    rw [ran] at kept
    exact kept
  have executed :
      after =
        afterExecute server c c (conn.parser.ends J data outcome, middle) := by
    have object : loop.conns.object c = some _ := start.object
    simp only [after, Loop.onRead, withConn_of_object object,
      HttpParser.execute_ends, ran]
  have executedAlone :
      conn.onRead alone data =
        Conn.afterExecute alone conn.parser
          (conn.parser.ends J data outcomeAlone, session) := by
    simp only [PlusWeb.Conn.onRead, HttpParser.execute_ends, ranAlone]
  have numbers :=
    afterExecute_numbers server since.owned (since.live c startThere)
      (conn.parser.ends J data outcome)
  rw [← executed] at numbers
  obtain ⟨same, tracks, countsWrites, countsCalls⟩ :=
    start.each (conn.parser.delivers J data) status kernels ran ranAlone
      numbers.1.ge numbers.2
  dsimp only at same tracks countsWrites countsCalls
  subst same
  obtain ⟨mirrored, quiet⟩ :=
    tracks.afterExecute memory
      (kernels.later countsWrites) executed.symm le_rfl
  rw [← executedAlone] at mirrored quiet
  refine ⟨mirrored, rfl, fun stays => ?_⟩
  obtain ⟨log, stream, closing, next, parser, accepted⟩ := quiet stays
  have returned : outcome = .returned := by
    cases outcome with
    | returned => rfl
    | threw exception =>
        cases exception <;> cases accepted
  rcases countsCalls returned with ⟨mono, count⟩
  rcases countsWrites with ⟨mono', count'⟩
  refine ⟨⟨?_, ?_⟩, ⟨?_, ?_⟩⟩
  · rw [numbers.1]
    exact mono
  · rw [numbers.1, log]
    exact count
  · rw [next]
    exact mono'
  · rw [next, stream, closing]
    exact count'

end Loop

end PlusWeb
