import PlusWeb.ConnectionResponses
import PlusWeb.Library.Heap

/-!
# Ownership in `HttpServer::Loop`

All connections of a server, with the pointers that the callbacks follow.
`new Conn` and `new WriteReq` create objects, `delete` takes them away, and
following a pointer to nothing is a fault that is counted.

libuv keeps a phase for each handle and, for each request it has accepted,
the stream it writes to.  What libuv promises is said of these alone: it
reads only between `uv_read_start` and `uv_close`, calls back once for each
accepted request and with an error after `uv_close`, and calls the close
callback once, when no request of the handle is left.  A `uv_write` that
fails is forgotten.

Under these promises no pointer is followed to nothing, `uv_close` is called
at most once for a connection, its `Conn` is deleted at most once and by its
close callback only, and a `WriteReq` is deleted once or still with libuv.
-/

namespace PlusWeb

variable {J A : Type} {llhttp : Llhttp}

/-! ## libuv -/

/--
`uv_handle_t*`: the listener, the async handle, or that of a `Conn`,
which begins with it.
-/
inductive HandlePtr where
  | server
  | stopper
  | conn (pointer : Nat)
deriving DecidableEq, Repr

/-- What has become of a handle. -/
inductive Phase where
  | absent
  | opened
  | reading
  | closing
  | closed
deriving DecidableEq, Repr

/--
The phase of each handle, how often `uv_close` was called for it, and the
streams of the write requests that have not ended.
-/
structure Uv where
  phase : HandlePtr → Phase
  closes : HandlePtr → Nat
  pending : Nat → Option Nat

namespace Uv

/-- The loop of a server that listens. -/
def new : Uv where
  phase
    | .server => .opened
    | .stopper => .opened
    | .conn _ => .absent
  closes _ := 0
  pending _ := none

def setPhase (handle : HandlePtr) (phase : Phase) (uv : Uv) : Uv :=
  { uv with phase := Function.update uv.phase handle phase }

/-- `uv_close`. -/
def close (handle : HandlePtr) (uv : Uv) : Uv :=
  { uv with
    phase := Function.update uv.phase handle .closing
    closes := Function.update uv.closes handle (uv.closes handle + 1) }

/-- `uv_write` takes the request over. -/
def write (request stream : Nat) (uv : Uv) : Uv :=
  { uv with pending := Function.update uv.pending request (some stream) }

/-- The request has ended, and its callback is going to be called. -/
def written (request : Nat) (uv : Uv) : Uv :=
  { uv with pending := Function.update uv.pending request none }

/-- `uv_is_closing`. -/
def isClosing (handle : HandlePtr) (uv : Uv) : Bool :=
  match uv.phase handle with
  | .closing | .closed => true
  | .absent | .opened | .reading => false

end Uv

/-! ## The loop -/

/-- `WriteReq`: `req.data` and `req.handle`, which `uv_write` sets. -/
structure WriteReq where
  data : Nat
  handle : Option Nat
  head : StdString
  body : StdString
deriving DecidableEq, Repr

/-- `HttpServer::Loop::Conn`, with `handle.data`. -/
structure Loop.Conn (llhttp : Llhttp) where
  data : Nat
  parser : HttpParser llhttp
  closing : Bool

/--
What the callbacks of a server work on: the objects, libuv, the local
`shouldClose` of `onRead`, the program's own data, the number of calls of
`handleRequest`, how often a pointer was followed to nothing, and whether an
exception has left a callback, which ends the program.
-/
structure Loop (llhttp : Llhttp) (A : Type) where
  conns : Heap (Loop.Conn llhttp)
  writeReqs : Heap WriteReq
  uv : Uv
  shouldClose : Bool
  app : A
  calls : Nat
  faults : Nat
  terminated : Bool

namespace Loop

/-- A server that listens. -/
def new (llhttp : Llhttp) (app : A) : Loop llhttp A where
  conns := Heap.empty
  writeReqs := Heap.empty
  uv := Uv.new
  shouldClose := false
  app := app
  calls := 0
  faults := 0
  terminated := false

def fault (loop : Loop llhttp A) : Loop llhttp A :=
  { loop with faults := loop.faults + 1 }

/-- Follow a `Conn*`, or the pointer to the handle it begins with. -/
def withConn
    (pointer : Nat) (use : Conn llhttp → Loop llhttp A)
    (loop : Loop llhttp A) : Loop llhttp A :=
  match loop.conns.object pointer with
  | some conn => use conn
  | none => loop.fault

/-- Follow a `WriteReq*`, or the pointer to the request it begins with. -/
def withWriteReq
    (pointer : Nat) (use : WriteReq → Loop llhttp A)
    (loop : Loop llhttp A) : Loop llhttp A :=
  match loop.writeReqs.object pointer with
  | some wr => use wr
  | none => loop.fault

/-- `onConnClosed`. -/
def onConnClosed (handle : Nat) (loop : Loop llhttp A) : Loop llhttp A :=
  loop.withConn handle fun own =>
    { loop with conns := loop.conns.delete own.data }

/-- `closeConn`. -/
def closeConn (c : Nat) (loop : Loop llhttp A) : Loop llhttp A :=
  loop.withConn c fun conn =>
    if conn.closing then loop
    else
      { loop with
        conns := loop.conns.store c { conn with closing := true }
        uv := loop.uv.close (.conn c) }

/-- `onWrite`. -/
def onWrite (req : Nat) (status : Int) (loop : Loop llhttp A) :
    Loop llhttp A :=
  loop.withWriteReq req fun own =>
    let wr := own.data
    let loop :=
      if status < 0 then
        match own.handle with
        | some handle =>
            loop.withConn handle fun conn => loop.closeConn conn.data
        | none => loop.fault
      else loop
    { loop with writeReqs := loop.writeReqs.delete wr }

/-- `send`. -/
def send
    (kernel : Nat → KernelAnswer) (stream : Nat) (head body : StdString)
    (loop : Loop llhttp A) : Loop llhttp A :=
  let wr := loop.writeReqs.next
  let object : WriteReq :=
    { data := wr, handle := none, head := head, body := body }
  let loop := { loop with writeReqs := loop.writeReqs.new object }
  loop.withConn stream fun own =>
    match kernel wr with
    | .takes _ =>
        { loop with
          writeReqs :=
            loop.writeReqs.store wr { object with handle := some stream }
          uv := loop.uv.write wr stream }
    | .fails =>
        { loop with
          writeReqs := loop.writeReqs.delete wr }.closeConn own.data

/-- What `handleRequest` leaves of a request is taken over. -/
def keep (served : Served A) (loop : Loop llhttp A) : Loop llhttp A :=
  { loop with
    shouldClose := served.shouldClose
    app := served.app
    calls := loop.calls + 1 }

/-- `onConnection` without an error, and whether `uv_accept` succeeds. -/
def onConnection (accepted : Bool) (loop : Loop llhttp A) :
    Loop llhttp A :=
  let c := loop.conns.next
  let loop :=
    { loop with
      conns :=
        loop.conns.new
          { data := c
            parser := HttpParser.new llhttp kMaxHeaderBytes
            closing := false }
      uv := loop.uv.setPhase (.conn c) .opened }
  if accepted then { loop with uv := loop.uv.setPhase (.conn c) .reading }
  else loop.closeConn c

/-- What `onStop` does with one handle. -/
def stopHandle (loop : Loop llhttp A) : HandlePtr → Loop llhttp A
  | .server =>
      if loop.uv.isClosing .server then loop
      else { loop with uv := loop.uv.close .server }
  | .stopper =>
      if loop.uv.isClosing .stopper then loop
      else { loop with uv := loop.uv.close .stopper }
  | .conn handle =>
      loop.withConn handle fun own =>
        if loop.uv.isClosing (.conn handle) then loop
        else loop.closeConn own.data

/-- `onStop`, with the handles `uv_walk` goes through. -/
def onStop (walk : List HandlePtr) (loop : Loop llhttp A) :
    Loop llhttp A :=
  walk.foldl stopHandle loop

variable [Json J]

/-- The request handler `onRead` gives to `execute`. -/
def onRequest (server : Server J A) (stream c : Nat) :
    RequestHandler J (Loop llhttp A) := fun request keepAlive loop =>
  match loop.conns.object c with
  | none => (.returned, loop.fault)
  | some _ =>
      let served :=
        handleRequest server.setup server.callbacks
          (server.memory loop.calls) request keepAlive loop.shouldClose
          loop.app
      match served.reply with
      | .error exception => (.threw exception, loop.keep served)
      | .ok (head, body) =>
          (.returned,
            (loop.keep served).send server.kernel stream head body)

/-- `onRead` after `execute`. -/
def afterExecute (server : Server J A) (stream c : Nat) :
    Executed llhttp × Loop llhttp A → Loop llhttp A
  | (.accepted parser, loop) =>
      let loop :=
        loop.withConn c fun conn =>
          { loop with
            conns := loop.conns.store c { conn with parser := parser } }
      if loop.shouldClose then loop.closeConn c else loop
  | (.failed status _, loop) =>
      loop.withConn c fun _ =>
        match errorResponse J status with
        | .ok reply =>
            { loop.send server.kernel stream reply [] with
              shouldClose := true }.closeConn c
        | .error _ => { loop with terminated := true }
  | (.escaped _, loop) => { loop with terminated := true }

/-- `onRead` for bytes that were read. -/
def onRead (server : Server J A) (stream : Nat) (data : StdString)
    (loop : Loop llhttp A) : Loop llhttp A :=
  loop.withConn stream fun own =>
    let c := own.data
    loop.withConn c fun conn =>
      afterExecute server stream c
        (conn.parser.execute (onRequest server stream c) data
          { loop with shouldClose := false })

/-- `onRead` for an error or the end of the input. -/
def onReadError (stream : Nat) (loop : Loop llhttp A) : Loop llhttp A :=
  loop.withConn stream fun own => loop.closeConn own.data

/-! ## Runs -/

/-- What libuv calls back for. -/
inductive Event where
  | connection (accepted : Bool)
  | connectionError
  | read (stream : Nat) (data : StdString)
  | readError (stream : Nat)
  | written (request : Nat) (status : Int)
  | closed (handle : HandlePtr)
  | stop (walk : List HandlePtr)

/-- One callback, with what libuv notes before it. -/
def step (server : Server J A) (loop : Loop llhttp A) (event : Event) :
    Loop llhttp A :=
  if loop.terminated then loop
  else
    match event with
    | .connection accepted => loop.onConnection accepted
    | .connectionError => loop
    | .read stream data => loop.onRead server stream data
    | .readError stream => loop.onReadError stream
    | .written request status =>
        { loop with uv := loop.uv.written request }.onWrite request status
    | .closed handle =>
        let loop := { loop with uv := loop.uv.setPhase handle .closed }
        match handle with
        | .server | .stopper => loop
        | .conn pointer => loop.onConnClosed pointer
    | .stop walk => loop.onStop walk

/-- What libuv promises of a callback. -/
def Promised (loop : Loop llhttp A) : Event → Prop
  | .connection _ => True
  | .connectionError => True
  | .read stream _ => loop.uv.phase (.conn stream) = .reading
  | .readError stream => loop.uv.phase (.conn stream) = .reading
  | .written request _ => ∃ stream, loop.uv.pending request = some stream
  | .closed handle => loop.uv.phase handle = .closing ∧
      ∀ request stream, handle = .conn stream →
        loop.uv.pending request ≠ some stream
  | .stop walk => ∀ handle ∈ walk,
      loop.uv.phase handle ≠ .absent ∧ loop.uv.phase handle ≠ .closed

/-! ## Ownership -/

/-- There is a `Conn` behind the pointer. -/
def Live (loop : Loop llhttp A) (c : Nat) : Prop :=
  ∃ conn, loop.conns.object c = some conn

/--
The `Conn` that goes with the phase of its handle, and how often
`uv_close` was called.
-/
def Holds (c next : Nat) (object : Option (Conn llhttp)) (closes : Nat) :
    Phase → Prop
  | .absent => next ≤ c ∧ closes = 0 ∧ object = none
  | .opened | .reading => closes = 0 ∧
      ∃ conn, object = some conn ∧ conn.data = c ∧ conn.closing = false
  | .closing => closes = 1 ∧
      ∃ conn, object = some conn ∧ conn.data = c ∧ conn.closing = true
  | .closed => c < next ∧ closes = 1 ∧ object = none

/-- A `Conn` is that of a handle that is not closed, and points to itself. -/
theorem holds_some_iff
    {c next closes : Nat} {conn : Conn llhttp} {phase : Phase} :
    Holds c next (some conn) closes phase ↔
      conn.data = c ∧
        (conn.closing = false ∧ closes = 0 ∧
            (phase = .opened ∨ phase = .reading) ∨
          conn.closing = true ∧ closes = 1 ∧ phase = .closing) := by
  cases phase with
  | absent => simp [Holds]
  | opened =>
      simp only [Holds, Option.some.injEq, exists_eq_left']
      constructor
      · rintro ⟨closes, data, idle⟩
        exact ⟨data, Or.inl ⟨idle, closes, Or.inl trivial⟩⟩
      · rintro ⟨data, ⟨idle, closes, -⟩ | ⟨-, -, other⟩⟩
        · exact ⟨closes, data, idle⟩
        · cases other
  | reading =>
      simp only [Holds, Option.some.injEq, exists_eq_left']
      constructor
      · rintro ⟨closes, data, idle⟩
        exact ⟨data, Or.inl ⟨idle, closes, Or.inr trivial⟩⟩
      · rintro ⟨data, ⟨idle, closes, -⟩ | ⟨-, -, other⟩⟩
        · exact ⟨closes, data, idle⟩
        · cases other
  | closing =>
      simp only [Holds, Option.some.injEq, exists_eq_left']
      constructor
      · rintro ⟨closes, data, busy⟩
        exact ⟨data, Or.inr ⟨busy, closes, trivial⟩⟩
      · rintro ⟨data, ⟨-, -, other | other⟩ | ⟨busy, closes, -⟩⟩
        · cases other
        · cases other
        · exact ⟨closes, data, busy⟩
  | closed => simp [Holds]

/-- Without a `Conn` the handle is not there yet, or closed. -/
theorem holds_none_iff
    {c next closes : Nat} {phase : Phase} :
    Holds c next (none : Option (Conn llhttp)) closes phase ↔
      next ≤ c ∧ closes = 0 ∧ phase = .absent ∨
        c < next ∧ closes = 1 ∧ phase = .closed := by
  cases phase with
  | absent => simp [Holds]
  | opened => simp [Holds]
  | reading => simp [Holds]
  | closing => simp [Holds]
  | closed => simp [Holds]

/--
Each `Conn` is there as long as libuv has its handle, and each `WriteReq`
as long as libuv has its request.
-/
structure Owned (loop : Loop llhttp A) : Prop where
  faults : loop.faults = 0
  conns : loop.conns.Sound
  writeReqs : loop.writeReqs.Sound
  conn : ∀ c,
    Holds c loop.conns.next (loop.conns.object c)
      (loop.uv.closes (.conn c)) (loop.uv.phase (.conn c))
  pending : ∀ request stream, loop.uv.pending request = some stream →
    loop.Live stream ∧ ∃ wr, loop.writeReqs.object request = some wr ∧
      wr.data = request ∧ wr.handle = some stream
  held : ∀ request wr, loop.writeReqs.object request = some wr →
    ∃ stream, loop.uv.pending request = some stream

theorem owned_new (app : A) : (Loop.new llhttp app).Owned where
  faults := rfl
  conns := Heap.sound_empty
  writeReqs := Heap.sound_empty
  conn c := ⟨Nat.zero_le c, rfl, rfl⟩
  pending _ _ accepted := by cases accepted
  held _ _ object := by cases object

namespace Owned

variable {loop : Loop llhttp A} (owned : loop.Owned)
include owned

theorem conn_cases
    {c : Nat} {conn : Conn llhttp}
    (object : loop.conns.object c = some conn) :
    conn.data = c ∧
      (conn.closing = false ∧ loop.uv.closes (.conn c) = 0 ∧
          (loop.uv.phase (.conn c) = .opened ∨
            loop.uv.phase (.conn c) = .reading) ∨
        conn.closing = true ∧ loop.uv.closes (.conn c) = 1 ∧
          loop.uv.phase (.conn c) = .closing) := by
  have holds := owned.conn c
  rw [object] at holds
  exact holds_some_iff.mp holds

theorem gone_cases {c : Nat} (gone : loop.conns.object c = none) :
    loop.conns.next ≤ c ∧ loop.uv.closes (.conn c) = 0 ∧
        loop.uv.phase (.conn c) = .absent ∨
      c < loop.conns.next ∧ loop.uv.closes (.conn c) = 1 ∧
        loop.uv.phase (.conn c) = .closed := by
  have holds := owned.conn c
  rw [gone] at holds
  exact holds_none_iff.mp holds

theorem live_of_phase
    {c : Nat} (present : loop.uv.phase (.conn c) ≠ .absent)
    (unclosed : loop.uv.phase (.conn c) ≠ .closed) : loop.Live c := by
  cases object : loop.conns.object c with
  | some conn => exact ⟨conn, object⟩
  | none =>
      rcases owned.gone_cases object with ⟨-, -, absent⟩ | ⟨-, -, closed⟩
      · exact absurd absent present
      · exact absurd closed unclosed

theorem closes_le_one (c : Nat) : loop.uv.closes (.conn c) ≤ 1 := by
  cases object : loop.conns.object c with
  | some conn =>
      rcases owned.conn_cases object with
        ⟨-, ⟨-, closes, -⟩ | ⟨-, closes, -⟩⟩
      · exact closes.le.trans zero_le_one
      · exact closes.le
  | none =>
      rcases owned.gone_cases object with ⟨-, closes, -⟩ | ⟨-, closes, -⟩
      · exact closes.le.trans zero_le_one
      · exact closes.le

end Owned

theorem withConn_of_object
    {loop : Loop llhttp A} {c : Nat} {conn : Conn llhttp}
    (object : loop.conns.object c = some conn)
    (use : Conn llhttp → Loop llhttp A) :
    loop.withConn c use = use conn := by
  simp only [withConn, object]

/-- Following a pointer is using what it points to, or a fault. -/
theorem withConn_ind
    {motive : Loop llhttp A → Prop} {loop : Loop llhttp A} {pointer : Nat}
    {use : Conn llhttp → Loop llhttp A}
    (followed : ∀ conn, motive (use conn)) (fault : motive loop.fault) :
    motive (loop.withConn pointer use) := by
  unfold withConn
  split
  · exact followed _
  · exact fault

/-! ## What the callbacks keep -/

/--
Since the start of a callback no `Conn` was deleted, and the ownership is
in order.
-/
structure Since (start loop : Loop llhttp A) : Prop where
  owned : loop.Owned
  live : ∀ c, start.Live c → loop.Live c
  deletions : loop.conns.deletions = start.conns.deletions

namespace Since

variable {start loop : Loop llhttp A}

theorem refl (owned : loop.Owned) : loop.Since loop :=
  ⟨owned, fun _ live => live, rfl⟩

/-- What is no object, no handle and no request does not matter. -/
theorem congr
    (since : start.Since loop) {other : Loop llhttp A}
    (conns : other.conns = loop.conns)
    (writeReqs : other.writeReqs = loop.writeReqs)
    (uv : other.uv = loop.uv) (faults : other.faults = loop.faults) :
    start.Since other := by
  rcases since with ⟨owned, live, deletions⟩
  have same (c : Nat) : other.Live c ↔ loop.Live c := by
    rw [Live, Live, conns]
  refine ⟨⟨?_, ?_, ?_, ?_, ?_, ?_⟩, ?_, ?_⟩
  · rw [faults]
    exact owned.faults
  · rw [conns]
    exact owned.conns
  · rw [writeReqs]
    exact owned.writeReqs
  · rw [conns, uv]
    exact owned.conn
  · intro request stream
    rw [same, writeReqs, uv]
    exact owned.pending request stream
  · rw [writeReqs, uv]
    exact owned.held
  · intro c before
    exact (same c).mpr (live c before)
  · rw [conns]
    exact deletions

/-- Writing to a `Conn` leaves the others where they are. -/
theorem live_store
    {c : Nat} (conn : Conn llhttp) {other : Nat} (alive : loop.Live other) :
    Live { loop with conns := loop.conns.store c conn } other := by
  unfold Live
  rw [Heap.store_object]
  split_ifs
  · exact ⟨_, rfl⟩
  · exact alive

/-- What a `Conn` holds beside `data` and `closing` does not matter. -/
theorem store
    (since : start.Since loop) {c : Nat} {conn conn' : Conn llhttp}
    (object : loop.conns.object c = some conn)
    (data : conn'.data = conn.data) (closing : conn'.closing = conn.closing) :
    start.Since { loop with conns := loop.conns.store c conn' } := by
  rcases since with ⟨owned, live, deletions⟩
  refine
    ⟨⟨owned.faults, owned.conns.store object _, owned.writeReqs, ?_, ?_,
      owned.held⟩, fun other before => live_store conn' (live other before),
      deletions⟩
  · intro other
    have holds := owned.conn other
    rw [Heap.store_object]
    split_ifs with own
    · subst own
      rw [object] at holds
      have phases := holds_some_iff.mp holds
      rw [← data, ← closing] at phases
      exact holds_some_iff.mpr phases
    · exact holds
  · intro request stream accepted
    rcases owned.pending request stream accepted with ⟨alive, wr⟩
    exact ⟨live_store conn' alive, wr⟩

theorem closeConn
    (since : start.Since loop) {c : Nat} (there : start.Live c) :
    start.Since (loop.closeConn c) := by
  rcases since with ⟨owned, live, deletions⟩
  rcases live c there with ⟨conn, object⟩
  rcases owned.conn_cases object with ⟨data, phase⟩
  rw [Loop.closeConn, withConn_of_object object]
  rcases phase with ⟨idle, closes, -⟩ | ⟨closing, -, -⟩
  · rw [idle]
    refine
      ⟨⟨owned.faults, owned.conns.store object _, owned.writeReqs, ?_, ?_,
        owned.held⟩, fun other before => live_store _ (live other before),
        deletions⟩
    · intro other
      show
        Holds other loop.conns.next
          ((loop.conns.store c { conn with closing := true }).object other)
          ((loop.uv.close (.conn c)).closes (.conn other))
          ((loop.uv.close (.conn c)).phase (.conn other))
      rw [Heap.store_object]
      by_cases own : other = c
      · subst own
        simp only [Uv.close, Function.update_self, if_pos, closes]
        exact ⟨rfl, _, rfl, data, rfl⟩
      · have apart : HandlePtr.conn other ≠ HandlePtr.conn c :=
          fun same => own (HandlePtr.conn.inj same)
        simp only [Uv.close, Function.update_of_ne apart, if_neg own]
        exact owned.conn other
    · intro request stream accepted
      rcases owned.pending request stream accepted with ⟨alive, wr⟩
      exact ⟨live_store _ alive, wr⟩
  · rw [closing, if_pos rfl]
    exact ⟨owned, live, deletions⟩

/-- The new request is taken over by libuv, or deleted at once. -/
theorem send
    (since : start.Since loop) {stream : Nat} (there : start.Live stream)
    (kernel : Nat → KernelAnswer) (head body : StdString) :
    start.Since (loop.send kernel stream head body) := by
  rcases since with ⟨owned, live, deletions⟩
  rcases live stream there with ⟨conn, object⟩
  rcases owned.conn_cases object with ⟨data, -⟩
  have held (wr : WriteReq) :
      (loop.writeReqs.new wr).object loop.writeReqs.next = some wr := by
    rw [Heap.new_object, if_pos rfl]
  have unfolded :
      loop.send kernel stream head body =
        match kernel loop.writeReqs.next with
        | .takes _ =>
            { loop with
              writeReqs :=
                (loop.writeReqs.new
                    ⟨loop.writeReqs.next, none, head, body⟩).store
                  loop.writeReqs.next
                  ⟨loop.writeReqs.next, some stream, head, body⟩
              uv := loop.uv.write loop.writeReqs.next stream }
        | .fails =>
            Loop.closeConn conn.data
              { loop with
                writeReqs :=
                  (loop.writeReqs.new
                      ⟨loop.writeReqs.next, none, head, body⟩).delete
                    loop.writeReqs.next } := by
    simp only [Loop.send, withConn, object]
  rw [unfolded, data]
  split
  · refine
      ⟨⟨owned.faults, owned.conns,
        (owned.writeReqs.new _).store (held _) _, owned.conn, ?_, ?_⟩,
        live, deletions⟩
    · intro request other accepted
      show loop.Live other ∧ _
      rw [Heap.store_object, Heap.new_object]
      by_cases own : request = loop.writeReqs.next
      · subst own
        simp only [Uv.write, Function.update_self] at accepted
        obtain rfl := Option.some.inj accepted
        rw [if_pos rfl]
        exact ⟨⟨conn, object⟩, _, rfl, rfl, rfl⟩
      · simp only [Uv.write, Function.update_of_ne own] at accepted
        rw [if_neg own, if_neg own]
        exact owned.pending request other accepted
    · intro request wr
      simp only [Uv.write]
      rw [Heap.store_object, Heap.new_object]
      by_cases own : request = loop.writeReqs.next
      · intro _
        rw [own, Function.update_self]
        exact ⟨stream, rfl⟩
      · rw [if_neg own, if_neg own, Function.update_of_ne own]
        exact owned.held request wr
  · apply closeConn _ there
    refine
      ⟨⟨owned.faults, owned.conns,
        (owned.writeReqs.new _).delete (held _), owned.conn, ?_, ?_⟩,
        live, deletions⟩
    · rw [owned.writeReqs.delete_new_object]
      exact owned.pending
    · rw [owned.writeReqs.delete_new_object]
      exact owned.held

theorem trans
    {middle : Loop llhttp A} (first : start.Since middle)
    (second : middle.Since loop) : start.Since loop where
  owned := second.owned
  live c before := second.live c (first.live c before)
  deletions := second.deletions.trans first.deletions

/-- The handles that belong to no `Conn` do not matter. -/
theorem otherHandles
    (since : start.Since loop) {uv : Uv}
    (phase : ∀ c, uv.phase (.conn c) = loop.uv.phase (.conn c))
    (closes : ∀ c, uv.closes (.conn c) = loop.uv.closes (.conn c))
    (pending : uv.pending = loop.uv.pending) :
    start.Since { loop with uv := uv } := by
  rcases since with ⟨owned, live, deletions⟩
  refine
    ⟨⟨owned.faults, owned.conns, owned.writeReqs, ?_, ?_, ?_⟩, live,
      deletions⟩
  · intro c
    rw [phase, closes]
    exact owned.conn c
  · rw [pending]
    exact owned.pending
  · rw [pending]
    exact owned.held

theorem close
    (since : start.Since loop) {handle : HandlePtr}
    (own : ∀ c, HandlePtr.conn c ≠ handle) :
    start.Since { loop with uv := loop.uv.close handle } :=
  since.otherHandles (fun c => Function.update_of_ne (own c) ..)
    (fun c => Function.update_of_ne (own c) ..) rfl

theorem setPhase
    (since : start.Since loop) {handle : HandlePtr}
    (own : ∀ c, HandlePtr.conn c ≠ handle) (phase : Phase) :
    start.Since { loop with uv := loop.uv.setPhase handle phase } :=
  since.otherHandles (fun c => Function.update_of_ne (own c) ..)
    (fun _ => rfl) rfl

theorem stopHandle
    (since : start.Since loop) {handle : HandlePtr}
    (there : ∀ c, handle = .conn c → start.Live c) :
    start.Since (loop.stopHandle handle) := by
  cases handle with
  | server =>
      rw [Loop.stopHandle]
      split_ifs
      · exact since
      · exact since.close fun c same => by cases same
  | stopper =>
      rw [Loop.stopHandle]
      split_ifs
      · exact since
      · exact since.close fun c same => by cases same
  | conn c =>
      rcases since.live c (there c rfl) with ⟨conn, object⟩
      rcases since.owned.conn_cases object with ⟨data, -⟩
      rw [Loop.stopHandle, withConn_of_object object, data]
      split_ifs
      · exact since
      · exact since.closeConn (there c rfl)

theorem onStop
    (since : start.Since loop) {walk : List HandlePtr}
    (there : ∀ handle ∈ walk, ∀ c, handle = .conn c → start.Live c) :
    start.Since (loop.onStop walk) := by
  unfold Loop.onStop
  induction walk generalizing loop with
  | nil => exact since
  | cons handle walk induction =>
      rcases List.forall_mem_cons.mp there with ⟨first, later⟩
      exact induction (since.stopHandle first) later

variable (server : Server J A)

theorem onRequest
    {stream c : Nat} (streamThere : start.Live stream)
    (connThere : start.Live c) (request : HttpRequest J) (keepAlive : Bool) :
    Action.Preserves (fun loop => start.Since loop)
      ((Loop.onRequest server stream c :
        RequestHandler J (Loop llhttp A)) request keepAlive) := by
  intro loop since
  rcases since.live c connThere with ⟨conn, object⟩
  simp only [Loop.onRequest, object]
  split
  · exact since.congr rfl rfl rfl rfl
  · apply send _ streamThere
    exact since.congr rfl rfl rfl rfl

theorem afterExecute
    {stream c : Nat} (streamThere : start.Live stream)
    (connThere : start.Live c) (since : start.Since loop)
    (executed : Executed llhttp) :
    start.Since (Loop.afterExecute server stream c (executed, loop)) := by
  rcases since.live c connThere with ⟨conn, object⟩
  cases executed with
  | accepted parser =>
      have stored :
          start.Since
            { loop with
              conns := loop.conns.store c { conn with parser := parser } } :=
        since.store object rfl rfl
      simp only [Loop.afterExecute, withConn, object]
      split_ifs
      · exact stored.closeConn connThere
      · exact stored
  | failed status reason =>
      simp only [Loop.afterExecute, withConn, object]
      split
      · apply closeConn _ connThere
        exact
          (since.send streamThere server.kernel _ []).congr rfl rfl rfl rfl
      · exact since.congr rfl rfl rfl rfl
  | escaped exception => exact since.congr rfl rfl rfl rfl

theorem onRead
    (owned : loop.Owned) {stream : Nat} (there : loop.Live stream)
    (data : StdString) : loop.Since (loop.onRead server stream data) := by
  rcases there with ⟨conn, object⟩
  rcases owned.conn_cases object with ⟨own, -⟩
  have there : loop.Live stream := ⟨conn, object⟩
  rw [Loop.onRead, withConn_of_object object]
  dsimp only
  rw [own, withConn_of_object object]
  have handled :
      loop.Since
        (conn.parser.execute
          (Loop.onRequest server stream stream :
            RequestHandler J (Loop llhttp A)) data
          { loop with shouldClose := false }).2 := by
    rw [HttpParser.execute_snd]
    apply
      RequestHandler.preserves_each fun request keepAlive =>
        Since.onRequest server there there request keepAlive
    exact (Since.refl owned).congr rfl rfl rfl rfl
  exact handled.afterExecute server there there _

end Since

/-! ## Callbacks that create and delete -/

theorem Since.onReadError
    {loop : Loop llhttp A} (owned : loop.Owned) {stream : Nat}
    (there : loop.Live stream) :
    loop.Since (loop.onReadError stream) := by
  rcases there with ⟨conn, object⟩
  rcases owned.conn_cases object with ⟨own, -⟩
  rw [Loop.onReadError, withConn_of_object object, own]
  exact (Since.refl owned).closeConn ⟨conn, object⟩

theorem Since.onConnection
    {loop : Loop llhttp A} (owned : loop.Owned) (accepted : Bool) :
    loop.Since (loop.onConnection accepted) := by
  let conn : Conn llhttp :=
    { data := loop.conns.next
      parser := HttpParser.new llhttp kMaxHeaderBytes
      closing := false }
  have closes : loop.uv.closes (.conn loop.conns.next) = 0 := by
    have gone := (owned.conns.fresh loop.conns.next le_rfl).1
    rcases owned.gone_cases gone with ⟨-, closes, -⟩ | ⟨below, -, -⟩
    · exact closes
    · exact absurd below (lt_irrefl _)
  have others {c : Nat} (alive : loop.Live c) :
      ∃ conn', (loop.conns.new conn).object c = some conn' := by
    rw [Heap.new_object]
    split_ifs
    · exact ⟨conn, rfl⟩
    · exact alive
  -- with the handle opened or read from
  have started (uv : Uv) (phase : Phase)
      (open_ : phase = .opened ∨ phase = .reading)
      (phases : uv.phase =
        Function.update loop.uv.phase (.conn loop.conns.next) phase)
      (sameCloses : uv.closes = loop.uv.closes)
      (samePending : uv.pending = loop.uv.pending) :
      loop.Since { loop with conns := loop.conns.new conn, uv := uv } := by
    refine
      ⟨⟨owned.faults, owned.conns.new conn, owned.writeReqs, ?_, ?_, ?_⟩,
        fun c alive => others alive, rfl⟩
    · intro c
      show Holds c (loop.conns.next + 1) ((loop.conns.new conn).object c)
        (uv.closes (.conn c)) (uv.phase (.conn c))
      rw [Heap.new_object, phases, sameCloses]
      split_ifs with own
      · subst own
        rw [Function.update_self, closes]
        exact holds_some_iff.mpr ⟨rfl, Or.inl ⟨rfl, rfl, open_⟩⟩
      · have apart : HandlePtr.conn c ≠ .conn loop.conns.next :=
          fun same => own (HandlePtr.conn.inj same)
        rw [Function.update_of_ne apart]
        cases object : loop.conns.object c with
        | some other =>
            exact holds_some_iff.mpr (owned.conn_cases object)
        | none =>
            apply holds_none_iff.mpr
            rcases owned.gone_cases object with
              ⟨beyond, absent⟩ | ⟨below, closed⟩
            · exact
                Or.inl
                  ⟨Nat.lt_of_le_of_ne beyond (Ne.symm own), absent⟩
            · exact Or.inr ⟨Nat.lt_succ_of_lt below, closed⟩
    · intro request stream
      rw [samePending]
      intro pending
      rcases owned.pending request stream pending with ⟨alive, wr⟩
      exact ⟨others alive, wr⟩
    · rw [samePending]
      exact owned.held
  cases accepted with
  | true =>
      exact
        started
          ((loop.uv.setPhase (.conn loop.conns.next) .opened).setPhase
            (.conn loop.conns.next) .reading)
          .reading (Or.inr rfl) (Function.update_idem ..) rfl rfl
  | false =>
      have opened :=
        started (loop.uv.setPhase (.conn loop.conns.next) .opened) .opened
          (Or.inl rfl) rfl rfl rfl
      apply opened.trans
      apply (Since.refl opened.owned).closeConn
      exact ⟨conn, by rw [Heap.new_object, if_pos rfl]⟩

/-- `onWrite`, with the objects it finds. -/
theorem Owned.onWrite_eq
    {loop : Loop llhttp A} (owned : loop.Owned) {request stream : Nat}
    (pending : loop.uv.pending request = some stream) (status : Int) :
    { loop with uv := loop.uv.written request }.onWrite request status =
      if status < 0 then
        Loop.closeConn stream
          { loop with
            writeReqs := loop.writeReqs.delete request
            uv := loop.uv.written request }
      else
        { loop with
          writeReqs := loop.writeReqs.delete request
          uv := loop.uv.written request } := by
  obtain ⟨⟨conn, there⟩, wr, object, data, handle⟩ :=
    owned.pending _ _ pending
  rcases owned.conn_cases there with ⟨own, -⟩
  simp only [Loop.onWrite, withWriteReq, object, handle, data, withConn,
    there, own, Loop.closeConn]
  split_ifs <;> rfl

/--
The request is deleted when it has ended; if it has failed the connection
is closed.
-/
theorem Since.onWrite
    {loop : Loop llhttp A} (owned : loop.Owned) {request stream : Nat}
    (pending : loop.uv.pending request = some stream) (status : Int) :
    loop.Since
      ({ loop with uv := loop.uv.written request }.onWrite request
        status) := by
  rcases owned.pending _ _ pending with ⟨there, wr, object, -⟩
  have ended :
      loop.Since
        { loop with
          writeReqs := loop.writeReqs.delete request
          uv := loop.uv.written request } := by
    refine
      ⟨⟨owned.faults, owned.conns, owned.writeReqs.delete object, owned.conn,
        ?_, ?_⟩, fun _ alive => alive, rfl⟩
    · intro other stream' accepted
      simp only [Uv.written, Function.update_apply] at accepted
      rw [Heap.delete_object]
      split_ifs at accepted ⊢
      exact owned.pending other stream' accepted
    · intro other wr'
      simp only [Uv.written, Function.update_apply]
      rw [Heap.delete_object]
      split_ifs
      · intro none
        cases none
      · exact owned.held other wr'
  rw [owned.onWrite_eq pending]
  split_ifs
  · exact ended.closeConn there
  · exact ended

/-- The `Conn` of a closed handle is deleted; none of its requests is left. -/
theorem Owned.onConnClosed
    {loop : Loop llhttp A} (owned : loop.Owned) {c : Nat}
    (closing : loop.uv.phase (.conn c) = .closing)
    (last : ∀ request, loop.uv.pending request ≠ some c) :
    ({ loop with uv := loop.uv.setPhase (.conn c) .closed }.onConnClosed
        c).Owned ∧
      ∀ other ≠ c,
        ({ loop with uv := loop.uv.setPhase (.conn c) .closed }.onConnClosed
          c).conns.deletions other = loop.conns.deletions other := by
  obtain ⟨conn, object⟩ := owned.live_of_phase (by simp [closing])
    (by simp [closing] : loop.uv.phase (.conn c) ≠ .closed)
  rcases owned.conn_cases object with ⟨data, phases⟩
  have closes : loop.uv.closes (.conn c) = 1 := by
    rcases phases with ⟨-, -, other | other⟩ | ⟨-, closes, -⟩
    · rw [closing] at other
      cases other
    · rw [closing] at other
      cases other
    · exact closes
  simp only [Loop.onConnClosed, withConn, object, data]
  refine
    ⟨⟨owned.faults, owned.conns.delete object, owned.writeReqs, ?_, ?_,
      owned.held⟩, ?_⟩
  · intro other
    have holds := owned.conn other
    simp only [Uv.setPhase, Heap.delete_next]
    rw [Heap.delete_object]
    by_cases own : other = c
    · subst own
      rw [if_pos rfl, Function.update_self, closes]
      exact ⟨owned.conns.lt_next object, rfl, rfl⟩
    · have apart : HandlePtr.conn other ≠ .conn c :=
        fun same => own (HandlePtr.conn.inj same)
      rw [if_neg own, Function.update_of_ne apart]
      exact holds
  · intro request stream accepted
    rcases owned.pending request stream accepted with ⟨⟨other, alive⟩, wr⟩
    have apart : stream ≠ c := by
      rintro rfl
      exact last request accepted
    refine ⟨⟨other, ?_⟩, wr⟩
    rw [Heap.delete_object, if_neg apart]
    exact alive
  · intro other apart
    rw [Heap.delete_deletions, if_neg apart]

/-! ## Every run -/

/-- A `Conn` is deleted by its own close callback only. -/
def DeletesOwn (server : Server J A) (loop : Loop llhttp A)
    (event : Event) : Prop :=
  ∀ c, (loop.step server event).conns.deletions c ≠ loop.conns.deletions c →
    event = .closed (.conn c)

theorem owned_step
    (server : Server J A) {loop : Loop llhttp A} (owned : loop.Owned)
    {event : Event} (promised : loop.Promised event) :
    (loop.step server event).Owned ∧ loop.DeletesOwn server event := by
  have since (kept : loop.Since (loop.step server event)) :
      (loop.step server event).Owned ∧ loop.DeletesOwn server event :=
    ⟨kept.owned, fun c changed => absurd (congrFun kept.deletions c) changed⟩
  have reading {stream : Nat}
      (phase : loop.uv.phase (.conn stream) = .reading) : loop.Live stream :=
    owned.live_of_phase (by simp [phase]) (by simp [phase])
  cases terminated : loop.terminated with
  | true =>
      apply since
      rw [step.eq_def, if_pos terminated]
      exact Since.refl owned
  | false =>
      have running :
          ¬ loop.terminated = true := by
        simp [terminated]
      cases event with
      | connection accepted =>
          apply since
          rw [step.eq_def, if_neg running]
          exact Since.onConnection owned accepted
      | connectionError =>
          apply since
          rw [step, if_neg running]
          exact Since.refl owned
      | read stream data =>
          apply since
          rw [step, if_neg running]
          exact Since.onRead server owned (reading promised) data
      | readError stream =>
          apply since
          rw [step, if_neg running]
          exact Since.onReadError owned (reading promised)
      | written request status =>
          rcases promised with ⟨stream, pending⟩
          apply since
          rw [step, if_neg running]
          exact Since.onWrite owned pending status
      | closed handle =>
          rcases promised with ⟨closing, last⟩
          cases handle with
          | server =>
              apply since
              rw [step, if_neg running]
              exact
                (Since.refl owned).setPhase (fun c same => by cases same)
                  .closed
          | stopper =>
              apply since
              rw [step, if_neg running]
              exact
                (Since.refl owned).setPhase (fun c same => by cases same)
                  .closed
          | conn c =>
              obtain ⟨kept, others⟩ :=
                owned.onConnClosed closing fun request =>
                  last request c rfl
              rw [DeletesOwn, step, if_neg running]
              refine ⟨kept, fun other changed => ?_⟩
              by_cases own : other = c
              · rw [own]
              · exact absurd (others other own) changed
      | stop walk =>
          apply since
          rw [step, if_neg running]
          apply (Since.refl owned).onStop
          rintro handle member c rfl
          rcases promised _ member with ⟨present, unclosed⟩
          exact owned.live_of_phase present unclosed

/-- What is asked of the pointers of a loop. -/
structure Safe (loop : Loop llhttp A) : Prop where
  /-- `uv_close` was called at most once for each connection. -/
  closes : ∀ c, loop.uv.closes (.conn c) ≤ 1
  /-- Each `Conn` was deleted at most once. -/
  conns : ∀ c, loop.conns.deletions c ≤ 1
  /-- Each `WriteReq` was deleted once, or is still with libuv. -/
  writeReqs : ∀ wr < loop.writeReqs.next,
    loop.writeReqs.deletions wr = 1 ∧ loop.uv.pending wr = none ∨
      loop.writeReqs.deletions wr = 0 ∧
        ∃ stream, loop.uv.pending wr = some stream
  /-- No pointer was followed to what is not there. -/
  faults : loop.faults = 0

theorem Owned.safe {loop : Loop llhttp A} (owned : loop.Owned) :
    loop.Safe where
  closes := owned.closes_le_one
  conns := owned.conns.deletions_le_one
  writeReqs wr created := by
    cases object : loop.writeReqs.object wr with
    | some own =>
        exact
          Or.inr
            ⟨owned.writeReqs.live wr own object, owned.held wr own object⟩
    | none =>
        refine Or.inl ⟨owned.writeReqs.deleted wr created object, ?_⟩
        cases pending : loop.uv.pending wr with
        | none => rfl
        | some stream =>
            rcases owned.pending wr stream pending with ⟨-, own, there, -⟩
            rw [object] at there
            cases there
  faults := owned.faults

theorem owned_run
    (server : Server J A) (app : A) {events : List Event}
    (promised :
      Runs.Along (step server) Promised (Loop.new llhttp app) events) :
    (Runs.run (step server) (Loop.new llhttp app) events).Owned := by
  have keeps (loop : Loop llhttp A) (event : Event) (owned : loop.Owned)
      (kept : loop.Promised event) :
      (loop.step server event).Owned :=
    (owned_step server owned kept).1
  exact Runs.invariant_run keeps (owned_new app) promised

/--
In every run that keeps what libuv promises the pointers are safe, and
each `Conn` is deleted by its own close callback.
-/
theorem pointers_safe
    (server : Server J A) (app : A) {events : List Event}
    (promised :
      Runs.Along (step server) Promised (Loop.new llhttp app) events) :
    (Runs.run (step server) (Loop.new llhttp app) events).Safe ∧
      Runs.Along (step server) (DeletesOwn server) (Loop.new llhttp app)
        events := by
  have keeps (loop : Loop llhttp A) (event : Event) (owned : loop.Owned)
      (kept : loop.Promised event) :
      (loop.step server event).Owned :=
    (owned_step server owned kept).1
  have deletes (loop : Loop llhttp A) (event : Event) (owned : loop.Owned)
      (kept : loop.Promised event) : loop.DeletesOwn server event :=
    (owned_step server owned kept).2
  constructor
  · exact (owned_run server app promised).safe
  · exact Runs.along_of_invariant keeps deletes (owned_new app) promised

/-- `helloServer` with a second `uv_write` that fails. -/
def failingServer : Server FlatJson Unit :=
  { helloServer with
    kernel := fun count => if count = 1 then .fails else .takes 65536 }

/-- Two requests in one read, `stop`, and the end of the first write. -/
def stoppedEvents : List Event :=
  [.connection true,
    .read 0 (ascii "GET / HTTP/1.1\r\n\r\nGET / HTTP/1.1\r\n\r\n"),
    .stop [.server, .stopper, .conn 0], .written 0 (-125)]

theorem promised_stoppedEvents :
    Runs.Along (step failingServer) Promised
      (Loop.new bodilessRequests.llhttp ()) stoppedEvents := by
  refine ⟨trivial, ?_, ?_, ⟨0, ?_⟩, trivial⟩
  · show Uv.phase _ _ = _
    decide +kernel
  · show ∀ handle ∈ _, Uv.phase _ _ ≠ _ ∧ Uv.phase _ _ ≠ _
    decide +kernel
  · decide +kernel

/-- Two requests are created before the handle is closed. -/
theorem pointers_safe_stoppedEvents :
    (Runs.run (step failingServer) (Loop.new bodilessRequests.llhttp ())
        (stoppedEvents ++ [.closed (.conn 0)])).Safe ∧
      Runs.Along (step failingServer) (DeletesOwn failingServer)
        (Loop.new bodilessRequests.llhttp ())
        (stoppedEvents ++ [.closed (.conn 0)]) := by
  apply pointers_safe
  have owned :
      (Runs.run (step failingServer) (Loop.new bodilessRequests.llhttp ())
        stoppedEvents).Owned :=
    owned_run failingServer () promised_stoppedEvents
  apply Runs.along_append.mpr
  refine ⟨promised_stoppedEvents, ⟨?_, ?_⟩, trivial⟩
  · show Uv.phase _ _ = _
    decide +kernel
  · intro request stream own accepted
    rcases owned.pending request stream accepted with ⟨-, wr, object, -⟩
    have created :
        (Runs.run (step failingServer) (Loop.new bodilessRequests.llhttp ())
          stoppedEvents).writeReqs.next = 2 := by
      decide +kernel
    have below := owned.writeReqs.lt_next object
    rw [created] at below
    have ended :
        ∀ request < 2,
          (Runs.run (step failingServer)
            (Loop.new bodilessRequests.llhttp ())
            stoppedEvents).uv.pending request = none := by
      decide +kernel
    rw [ended request below] at accepted
    cases accepted

end Loop

end PlusWeb
