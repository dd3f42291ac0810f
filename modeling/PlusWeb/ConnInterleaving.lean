import PlusWeb.ConnSimulation

/-!
# Connections in any order

What the events of the others are to a connection, and every run of the
server: whatever libuv calls back for and in whatever order, each connection
is a `Conn` on its own.
-/

namespace PlusWeb

variable {J A : Type} {llhttp : Llhttp}

namespace Loop

variable [Json J]

/-! ## The other events -/

namespace Mirrors

variable {loop : Loop llhttp A} {c : Nat} {conn : PlusWeb.Conn llhttp J A}

omit [Json J] in
theorem alive
    (mirrors : loop.Mirrors c conn) (running : loop.terminated = false) :
    conn.session.terminated = false := by
  rw [Bool.eq_false_iff]
  intro terminated
  rw [mirrors.terminated terminated] at running
  cases running

omit [Json J] in
/-- What belongs to others, libuv or the program does not matter. -/
theorem congr
    (mirrors : loop.Mirrors c conn) {other : Loop llhttp A}
    (belongings : other.belongings c = loop.belongings c)
    (app : conn.session.live = true → other.app = loop.app)
    (terminated : conn.session.terminated = false) :
    other.Mirrors c conn := by
  obtain ⟨object, waiting, next⟩ :
      other.conns.object c = loop.conns.object c ∧
        other.waiting c = loop.waiting c ∧
          other.conns.next = loop.conns.next := by
    simpa [Loop.belongings] using belongings
  refine
    { fresh := by rw [next]; exact mirrors.fresh
      object := by rw [object]; exact mirrors.object
      gone := by rw [next, object]; exact mirrors.gone
      app := fun live => (mirrors.app live).trans (app live).symm
      terminated := fun ended => by rw [terminated] at ended; cases ended
      waiting := by rw [waiting]; exact mirrors.waiting }

omit [Json J] in
theorem closeOther
    (mirrors : loop.Mirrors c conn) {other : Nat} (apart : c ≠ other)
    (alive : conn.session.terminated = false) :
    (loop.closeConn other).Mirrors c conn :=
  mirrors.congr (closeConn_belongings apart loop)
    (fun _ => closeConn_app other loop) alive

omit [Json J] in
/-- `closeConn`, in the server and alone. -/
theorem closeConn
    (mirrors : loop.Mirrors c conn) (there : loop.Live c)
    (below : c < loop.conns.next) :
    (loop.closeConn c).Mirrors c conn.closeConn := by
  rcases there with ⟨own, object⟩
  rcases mirrors.object own object with ⟨parser, closing⟩
  have dead : conn.closeConn.session.live = false :=
    Session.closeConn_live _
  have closed : conn.closeConn.session.closing = true :=
    Session.closeConn_closing _
  have waits :
      ((loop.closeConn c).waiting c).Sublist
        conn.closeConn.session.responses := by
    have responses :
        conn.closeConn.session.responses = conn.session.responses :=
      Session.closeConn_responses _
    rw [closeConn_waiting, responses]
    exact mirrors.waiting
  have terminates :
      conn.closeConn.session.terminated = true →
        (loop.closeConn c).terminated = true := by
    intro ended
    have before : conn.session.terminated = true := by
      unfold PlusWeb.Conn.closeConn Session.closeConn at ended
      dsimp only at ended
      split_ifs at ended <;> exact ended
    rw [Loop.closeConn, withConn_of_object object]
    split_ifs <;> exact mirrors.terminated before
  obtain ⟨next, found⟩ :
      (loop.closeConn c).conns.next = loop.conns.next ∧
        (loop.closeConn c).conns.object c =
          some { own with closing := true } := by
    rw [Loop.closeConn, withConn_of_object object]
    split_ifs with closing
    · refine ⟨rfl, object.trans ?_⟩
      rw [← closing]
    · refine ⟨rfl, ?_⟩
      rw [Heap.store_object, if_pos rfl]
  refine
    { fresh := ?_
      object := ?_
      gone := fun _ _ => closed
      app := ?_
      terminated := terminates
      waiting := waits }
  · rw [next]
    intro beyond
    exact absurd below beyond.not_gt
  · intro own' object'
    rw [found] at object'
    obtain rfl := Option.some.inj object'
    exact ⟨parser, closed⟩
  · rw [dead]
    intro live
    cases live

/--
In a program that runs, closing a connection that is closed changes
nothing.
-/
theorem step_close
    (mirrors : loop.Mirrors c conn) (running : loop.terminated = false)
    (alone : Server J A) :
    conn.step alone .hangUp = conn.closeConn ∧
      conn.step alone .writeFailed = conn.closeConn ∧
        conn.step alone .stop = conn.closeConn := by
  have alive := mirrors.alive running
  cases live : conn.session.live with
  | true => simp [PlusWeb.Conn.step, live]
  | false =>
      have closing : conn.session.closing = true := by
        simpa [Session.live, alive] using live
      have same : conn.closeConn = conn := by
        simp [PlusWeb.Conn.closeConn, Session.closeConn, closing]
      simp [PlusWeb.Conn.step, live, same]

theorem onConnection
    (server : Server J A) (mirrors : loop.Mirrors c conn)
    (running : loop.terminated = false) (accepted : Bool) :
    (loop.onConnection accepted).Mirrors c
      (conn.run server
        (loop.view c (loop.onConnection accepted) (.connection accepted))) := by
  have alive := mirrors.alive running
  let created : Loop llhttp A :=
    { loop with
      conns :=
        loop.conns.new
          { data := loop.conns.next
            parser := HttpParser.new llhttp kMaxHeaderBytes
            closing := false }
      uv := loop.uv.setPhase (.conn loop.conns.next) .opened }
  by_cases own : loop.conns.next = c
  · rcases mirrors.fresh own.le with ⟨parser, idle⟩
    have live : conn.session.live = true := by
      simp [Session.live, idle, alive]
    have object :
        created.conns.object c =
          some ⟨c, HttpParser.new llhttp kMaxHeaderBytes, false⟩ := by
      simp only [created, Heap.new_object, own, if_true]
    have mirrored (uv : Uv) : Mirrors { created with uv := uv } c conn := by
      refine
        { fresh := ?_
          object := ?_
          gone := ?_
          app := mirrors.app
          terminated := mirrors.terminated
          waiting := mirrors.waiting }
      · intro beyond
        have next : created.conns.next = c + 1 := by
          simp [created, own]
        change created.conns.next ≤ c at beyond
        omega
      · intro found object'
        change created.conns.object c = _ at object'
        rw [object] at object'
        obtain rfl := Option.some.inj object'
        exact ⟨parser, idle⟩
      · intro _ none
        change created.conns.object c = _ at none
        rw [object] at none
        cases none
    cases accepted with
    | true =>
        have unseen :
            loop.view c (loop.onConnection true) (.connection true) = [] := by
          simp [view]
        rw [unseen]
        exact mirrored _
    | false =>
        have seen :
            loop.view c (loop.onConnection false) (.connection false) =
              [.hangUp] := by
          simp [view, own]
        have below : c < created.conns.next := by
          simp [created, own]
        rw [seen]
        show Mirrors _ c (conn.step server .hangUp)
        rw [((mirrored created.uv).step_close running server).1]
        have closed :=
          (mirrored created.uv).closeConn ⟨_, object⟩ below
        have same : loop.onConnection false = created.closeConn c := by
          simp [Loop.onConnection, created, own]
        rw [same]
        exact closed
  · have unseen :
        loop.view c (loop.onConnection accepted) (.connection accepted) =
          [] := by
      simp [view, own]
    have object : created.conns.object c = loop.conns.object c := by
      simp only [created, Heap.new_object, if_neg (Ne.symm own)]
    have mirrored (uv : Uv) : Mirrors { created with uv := uv } c conn := by
      refine
        { fresh := fun beyond => mirrors.fresh ((Nat.le_succ _).trans beyond)
          object := by
            change ∀ found, created.conns.object c = some found → _
            rw [object]
            exact mirrors.object
          gone := ?_
          app := mirrors.app
          terminated := mirrors.terminated
          waiting := mirrors.waiting }
      intro below none
      change created.conns.object c = _ at none
      rw [object] at none
      apply mirrors.gone _ none
      exact lt_of_le_of_ne (Nat.le_of_lt_succ below) (Ne.symm own)
    rw [unseen]
    cases accepted with
    | true => exact mirrored _
    | false =>
        have same : loop.onConnection false = created.closeConn _ := rfl
        rw [same]
        exact (mirrored created.uv).closeOther (Ne.symm own) alive

theorem onReadError
    (server : Server J A) (mirrors : loop.Mirrors c conn)
    (running : loop.terminated = false) (owned : loop.Owned) {stream : Nat}
    (there : loop.Live stream) :
    (loop.onReadError stream).Mirrors c
      (conn.run server
        (loop.view c (loop.onReadError stream) (.readError stream))) := by
  rcases there with ⟨own, object⟩
  rcases owned.conn_cases object with ⟨data, -⟩
  have closes : loop.onReadError stream = loop.closeConn stream := by
    rw [Loop.onReadError, withConn_of_object object, data]
  by_cases same : stream = c
  · subst same
    have seen :
        loop.view stream (loop.onReadError stream) (.readError stream) =
          [.hangUp] := if_pos rfl
    rw [seen, closes]
    show Mirrors _ _ (conn.step server .hangUp)
    rw [(mirrors.step_close running server).1]
    exact mirrors.closeConn ⟨own, object⟩ (owned.conns.lt_next object)
  · have unseen :
        loop.view c (loop.onReadError stream) (.readError stream) = [] :=
      if_neg same
    rw [unseen, closes]
    exact mirrors.closeOther (Ne.symm same) (mirrors.alive running)

theorem onWrite
    (server : Server J A) (mirrors : loop.Mirrors c conn)
    (running : loop.terminated = false) (owned : loop.Owned)
    {request stream : Nat}
    (pending : loop.uv.pending request = some stream) (status : Int)
    {after : Loop llhttp A}
    (ran :
      { loop with uv := loop.uv.written request }.onWrite request status =
        after) :
    after.Mirrors c
      (conn.run server (loop.view c after (.written request status))) := by
  have alive := mirrors.alive running
  let ended : Loop llhttp A :=
    { loop with
      writeReqs := loop.writeReqs.delete request
      uv := loop.uv.written request }
  have mirrored : ended.Mirrors c conn :=
    { mirrors with
      waiting :=
        (((loop.writeReqs.objects_delete_sublist request).filter _).map
          _).trans mirrors.waiting }
  obtain ⟨⟨own, there⟩, -⟩ := owned.pending _ _ pending
  rw [owned.onWrite_eq pending] at ran
  by_cases failed : status < 0
  · rw [if_pos failed] at ran
    subst ran
    by_cases same : stream = c
    · subst same
      have seen (after : Loop llhttp A) :
          loop.view stream after (.written request status) =
            [.writeFailed] := if_pos ⟨failed, pending⟩
      rw [seen]
      show Mirrors _ _ (conn.step server .writeFailed)
      rw [(mirrors.step_close running server).2.1]
      exact mirrored.closeConn ⟨own, there⟩ (owned.conns.lt_next there)
    · have unseen (after : Loop llhttp A) :
          loop.view c after (.written request status) = [] := by
        simp [view, pending, same]
      rw [unseen]
      exact mirrored.closeOther (Ne.symm same) alive
  · rw [if_neg failed] at ran
    subst ran
    have unseen (after : Loop llhttp A) :
        loop.view c after (.written request status) = [] := by
      simp [view, failed]
    rw [unseen]
    exact mirrored

omit [Json J] in
/-- A `Conn` is deleted when its handle is closed, after `closeConn`. -/
theorem onConnClosed
    (mirrors : loop.Mirrors c conn) (owned : loop.Owned) {handle : Nat}
    (closing : loop.uv.phase (.conn handle) = .closing) :
    ({ loop with
      uv := loop.uv.setPhase (.conn handle) .closed }.onConnClosed
        handle).Mirrors c conn := by
  obtain ⟨own, object⟩ :=
    owned.live_of_phase (by simp [closing])
      (by simp [closing] : loop.uv.phase (.conn handle) ≠ .closed)
  obtain ⟨data, busy⟩ : own.data = handle ∧ own.closing = true := by
    rcases owned.conn_cases object with
      ⟨data, ⟨-, -, phase | phase⟩ | ⟨busy, -⟩⟩
    · rw [closing] at phase
      cases phase
    · rw [closing] at phase
      cases phase
    · exact ⟨data, busy⟩
  simp only [Loop.onConnClosed, withConn, object, data]
  refine
    { fresh := mirrors.fresh
      object := ?_
      gone := ?_
      app := mirrors.app
      terminated := mirrors.terminated
      waiting := mirrors.waiting }
  · intro found object'
    rw [Heap.delete_object] at object'
    split_ifs at object'
    exact mirrors.object found object'
  · intro below none
    rw [Heap.delete_object] at none
    split_ifs at none with same
    · subst same
      rw [(mirrors.object own object).2, busy]
    · exact mirrors.gone below none

omit [Json J] in
theorem stopHandle
    (mirrors : loop.Mirrors c conn) (running : loop.terminated = false)
    (owned : loop.Owned) {handle : HandlePtr}
    (there : ∀ pointer, handle = .conn pointer → loop.Live pointer) :
    (loop.stopHandle handle).Mirrors c
      (if handle = .conn c then conn.closeConn else conn) := by
  have alive := mirrors.alive running
  cases handle with
  | server =>
      rw [if_neg (by simp)]
      simp only [Loop.stopHandle]
      split_ifs
      · exact mirrors
      · exact mirrors.congr rfl (fun _ => rfl) alive
  | stopper =>
      rw [if_neg (by simp)]
      simp only [Loop.stopHandle]
      split_ifs
      · exact mirrors
      · exact mirrors.congr rfl (fun _ => rfl) alive
  | conn pointer =>
      rcases there pointer rfl with ⟨own, object⟩
      rcases owned.conn_cases object with ⟨data, phases⟩
      rw [Loop.stopHandle, withConn_of_object object, data]
      by_cases same : pointer = c
      · subst same
        rw [if_pos rfl]
        split_ifs with closing
        · have closed : own.closing = true := by
            rcases phases with ⟨-, -, phase | phase⟩ | ⟨busy, -⟩
            · simp [Uv.isClosing, phase] at closing
            · simp [Uv.isClosing, phase] at closing
            · exact busy
          have unchanged : conn.closeConn = conn := by
            simp [PlusWeb.Conn.closeConn, Session.closeConn,
              (mirrors.object own object).2, closed]
          rw [unchanged]
          exact mirrors
        · exact
            mirrors.closeConn ⟨own, object⟩ (owned.conns.lt_next object)
      · rw [if_neg fun equal => same (HandlePtr.conn.inj equal)]
        split_ifs
        · exact mirrors
        · exact mirrors.closeOther (Ne.symm same) alive

omit [Json J] in
theorem onStop
    (mirrors : loop.Mirrors c conn) (running : loop.terminated = false)
    (owned : loop.Owned) {walk : List HandlePtr}
    (there : ∀ handle ∈ walk, ∀ pointer, handle = .conn pointer →
      loop.Live pointer) :
    (loop.onStop walk).Mirrors c
      (if .conn c ∈ walk then conn.closeConn else conn) := by
  unfold Loop.onStop
  induction walk generalizing loop conn with
  | nil => exact mirrors
  | cons handle walk induction =>
      rcases List.forall_mem_cons.mp there with ⟨first, later⟩
      have since := (Since.refl owned).stopHandle first
      have stopped := mirrors.stopHandle running owned first
      have stillRunning : (loop.stopHandle handle).terminated = false :=
        (stopHandle_sameObjects owned handle).terminated.trans running
      have rest :=
        induction stopped stillRunning since.owned
          fun other member pointer named =>
            since.live pointer (later other member pointer named)
      rw [List.foldl_cons]
      have same :
          (if HandlePtr.conn c ∈ walk then
              (if handle = .conn c then conn.closeConn else conn).closeConn
            else if handle = .conn c then conn.closeConn else conn) =
            if HandlePtr.conn c ∈ handle :: walk then conn.closeConn
            else conn := by
        by_cases isFirst : handle = .conn c
        · subst isFirst
          simp [PlusWeb.Conn.closeConn_closeConn]
        · simp [isFirst, Ne.symm isFirst]
      rw [← same]
      exact rest

theorem readOther
    (server : Server J A) (mirrors : loop.Mirrors c conn)
    (running : loop.terminated = false) (owned : loop.Owned) {stream : Nat}
    (apart : c ≠ stream) (there : loop.Live stream) (data : StdString)
    (alone : Server J A) :
    (loop.onRead server stream data).Mirrors c
      (conn.run alone
        (loop.view c (loop.onRead server stream data)
          (.read stream data))) := by
  have alive := mirrors.alive running
  have belongings := onRead_belongings server owned apart there data
  have seen :
      loop.view c (loop.onRead server stream data) (.read stream data) =
        [.elsewhere (loop.onRead server stream data).app] :=
    if_neg (Ne.symm apart)
  rw [seen]
  show
    Mirrors _ _
      (conn.step alone (.elsewhere (loop.onRead server stream data).app))
  cases live : conn.session.live with
  | false =>
      have same :
          conn.step alone
              (.elsewhere (loop.onRead server stream data).app) = conn := by
        simp [PlusWeb.Conn.step, live]
      rw [same]
      apply mirrors.congr belongings _ alive
      intro open_
      rw [live] at open_
      cases open_
  | true =>
      obtain ⟨object, waiting, next⟩ :
          (loop.onRead server stream data).conns.object c =
              loop.conns.object c ∧
            (loop.onRead server stream data).waiting c = loop.waiting c ∧
              (loop.onRead server stream data).conns.next =
                loop.conns.next := by
        simpa [Loop.belongings] using belongings
      simp only [PlusWeb.Conn.step, live, if_true]
      refine
        { fresh := by rw [next]; exact mirrors.fresh
          object := by rw [object]; exact mirrors.object
          gone := by rw [next, object]; exact mirrors.gone
          app := fun _ => rfl
          terminated := fun ended => ?_
          waiting := by rw [waiting]; exact mirrors.waiting }
      rw [show conn.session.terminated = true from ended] at alive
      cases alive

/-- Every event but a read of the connection itself. -/
theorem quiet
    (server alone : Server J A) (mirrors : loop.Mirrors c conn)
    (running : loop.terminated = false) (owned : loop.Owned) {event : Event}
    (promised : loop.Promised event)
    (other : ∀ data, event ≠ .read c data) :
    (loop.step server event).Mirrors c
      (conn.run alone (loop.view c (loop.step server event) event)) := by
  have alive := mirrors.alive running
  have stepped := Loop.step.eq_def server loop event
  rw [if_neg (by simp [running])] at stepped
  cases event with
  | connection accepted =>
      rw [stepped]
      exact mirrors.onConnection alone running accepted
  | connectionError =>
      rw [stepped]
      exact mirrors
  | read stream data =>
      have reading : loop.uv.phase (.conn stream) = .reading := promised
      have apart : c ≠ stream := by
        rintro rfl
        exact other data rfl
      rw [stepped]
      exact
        mirrors.readOther server running owned apart
          (owned.live_of_phase (by simp [reading]) (by simp [reading])) data
          alone
  | readError stream =>
      have reading : loop.uv.phase (.conn stream) = .reading := promised
      rw [stepped]
      exact
        mirrors.onReadError alone running owned
          (owned.live_of_phase (by simp [reading]) (by simp [reading]))
  | written request status =>
      rcases promised with ⟨stream, pending⟩
      exact mirrors.onWrite alone running owned pending status stepped.symm
  | closed handle =>
      rcases promised with ⟨closing, -⟩
      rw [stepped]
      cases handle with
      | server => exact mirrors.congr rfl (fun _ => rfl) alive
      | stopper => exact mirrors.congr rfl (fun _ => rfl) alive
      | conn pointer => exact mirrors.onConnClosed owned closing
  | stop walk =>
      have stopped :=
        mirrors.onStop running owned (owned.live_of_promised promised)
      rw [stepped]
      dsimp only [view]
      by_cases member : HandlePtr.conn c ∈ walk
      · rw [if_pos member] at stopped ⊢
        show Mirrors _ _ (conn.step alone .stop)
        rw [(mirrors.step_close running alone).2.2]
        exact stopped
      · rw [if_neg member] at stopped ⊢
        exact stopped

end Mirrors

/-! ## Runs -/

theorem views_concat
    (server : Server J A) (c : Nat) (start : Loop llhttp A)
    (past : List Event) (event : Event) :
    views server c start (past ++ [event]) =
      views server c start past ++
        let loop := Runs.run (step server) start past
        if loop.terminated then []
        else loop.view c (loop.step server event) event := by
  induction past generalizing start with
  | nil =>
      simp only [List.nil_append, views, List.append_nil, Runs.run_nil]
      rfl
  | cons first past induction =>
      simp only [List.cons_append, views, induction, List.append_assoc,
        Runs.run_cons]
      rfl

omit [Json J] in
/-- Only its own reads are reads to a connection. -/
theorem view_unread
    {c : Nat} {before after : Loop llhttp A} {event : Event}
    (other : ∀ data, event ≠ .read c data) :
    ∀ seen ∈ before.view c after event,
      ∀ data : StdString, seen ≠ PlusWeb.Conn.Event.read data := by
  intro seen member data
  cases event with
  | read stream bytes =>
      have apart : stream ≠ c := by
        rintro rfl
        exact other bytes rfl
      simp only [view, if_neg apart, List.mem_singleton] at member
      simp [member]
  | connectionError => simp [view] at member
  | closed handle => simp [view] at member
  | _ =>
      simp only [view] at member
      split_ifs at member
      · simp [List.mem_singleton.mp member]
      · simp at member

end Loop

/-- Without a read nothing is logged and nothing handed to `uv_write`. -/
theorem Conn.run_unread
    [Json J] (server : Server J A) (conn : Conn llhttp J A)
    {events : List (Conn.Event A)}
    (unread : ∀ event ∈ events, ∀ data, event ≠ .read data)
    (live : (conn.run server events).session.live = true) :
    conn.session.live = true ∧
      (conn.run server events).session.log = conn.session.log ∧
        (conn.run server events).session.stream.writes =
          conn.session.stream.writes := by
  induction events generalizing conn with
  | nil => exact ⟨live, rfl, rfl⟩
  | cons event events induction =>
      rcases List.forall_mem_cons.mp unread with ⟨first, later⟩
      obtain ⟨middle, log, writes⟩ := induction _ later live
      have quiet (_ : conn.session.live = true) : ∀ data, event ≠ .read data :=
        first
      rcases step_quiet server conn quiet with ⟨sameLog, stays⟩
      have before := stays middle
      have same :
          (conn.step server event).session.stream.writes =
            conn.session.stream.writes := by
        cases event with
        | read data => exact absurd rfl (first data)
        | writable room => simp [step, before, Stream.flush]
        | elsewhere app => simp [step, before]
        | hangUp =>
            simp [step, before, closeConn, Session.closeConn_live] at middle
        | writeFailed =>
            simp [step, before, closeConn, Session.closeConn_live] at middle
        | stop =>
            simp [step, before, closeConn, Session.closeConn_live] at middle
      exact ⟨before, log.trans sameLog, writes.trans same⟩

theorem Conn.serves_unread
    [Json J] (server : Server J A) (conn : Conn llhttp J A)
    {events : List (Conn.Event A)}
    (unread : ∀ event ∈ events, ∀ data, event ≠ .read data) :
    Runs.Along (step server) (Serves server) conn events := by
  induction events generalizing conn with
  | nil => trivial
  | cons event events induction =>
      rcases List.forall_mem_cons.mp unread with ⟨first, later⟩
      refine ⟨?_, induction _ later⟩
      cases event with
      | read data => exact absurd rfl (first data)
      | _ => trivial

namespace Loop

variable [Json J]

/--
A read of a connection does not end with llhttp pausing for an upgrade or
finding bytes behind the last message, and every request it delivers gets a
response.
-/
def Serves (server : Server J A) (c : Nat) (loop : Loop llhttp A) :
    Event → Prop
  | .read stream data => stream = c →
      ∀ own, loop.conns.object c = some own →
        (llhttp.execute own.parser.state data).errno ≠ .pausedUpgrade ∧
          (llhttp.execute own.parser.state data).errno ≠ .closedConnection ∧
          (RequestHandler.each (onRequest server c c)
            (own.parser.delivers J data)
            { loop with shouldClose := false }).1 = .returned
  | _ => True

/--
The connection alone, with these values of `$status` and these answers of
the kernel.
-/
def alone (server : Server J A) (memory : Nat → Int)
    (kernel : Nat → KernelAnswer) : Server J A :=
  { server with memory := memory, kernel := kernel }

/-- These values first, and then those. -/
def continued {α : Type} (bound : Nat) (first later : Nat → α) : Nat → α :=
  fun index => if index < bound then first index else later (index - bound)

omit [Json J] in
theorem continued_lt
    {α : Type} {bound index : Nat} {first later : Nat → α}
    (below : index < bound) :
    continued bound first later index = first index := if_pos below

omit [Json J] in
theorem continued_add
    {α : Type} (bound index : Nat) (first later : Nat → α) :
    continued bound first later (bound + index) = later index := by
  rw [continued, if_neg (by omega), Nat.add_sub_cancel_left]

/--
What a run of the server is to a connection, with any values of `$status`
and answers of the kernel that are these as far as they were asked for.
-/
def Isolated
    (llhttp : Llhttp) (server : Server J A) (app : A) (c : Nat) (events : List Event)
    (memory : Nat → Int) (kernel : Nat → KernelAnswer)
    (entries writes : Nat) : Prop :=
  ∀ memory' kernel',
    (∀ index ≤ entries, memory' index = memory index) →
    (∀ index < writes, kernel' index = kernel index) →
    let start : PlusWeb.Conn llhttp J A := Conn.new llhttp app
    let seen := views server c (Loop.new llhttp app) events
    let conn := start.run (alone server memory' kernel') seen
    (Runs.run (step server) (Loop.new llhttp app) events).Mirrors c conn ∧
      (conn.session.live = true →
        conn.session.log.length = entries ∧
          conn.session.stream.writes = writes) ∧
      (Runs.Along (step server) (Serves server c) (Loop.new llhttp app)
          events →
        Runs.Along (Conn.step (alone server memory' kernel'))
          (Conn.Serves (alone server memory' kernel')) start seen)

omit [Json J] in
theorem mirrors_new (app : A) (c : Nat) :
    (Loop.new llhttp app).Mirrors c
      (PlusWeb.Conn.new llhttp app : PlusWeb.Conn llhttp J A) where
  fresh _ := ⟨rfl, rfl⟩
  object _ none := by cases none
  gone below := absurd below (Nat.not_lt_zero c)
  app _ := rfl
  terminated ended := by cases ended
  waiting := List.Sublist.refl _

/-- An event that is no read of the connection asks for nothing. -/
theorem Isolated.quiet
    {server : Server J A} {app : A} {c : Nat} {past : List Event}
    {memory : Nat → Int} {kernel : Nat → KernelAnswer} {entries writes : Nat}
    (isolated :
      Isolated llhttp server app c past memory kernel entries writes)
    (owned :
      (Runs.run (step server) (Loop.new llhttp app) past).Owned)
    {event : Event}
    (promised :
      (Runs.run (step server) (Loop.new llhttp app) past).Promised event)
    (other :
      (Runs.run (step server) (Loop.new llhttp app) past).terminated = false →
        ∀ data, event ≠ .read c data) :
    Isolated llhttp server app c (past ++ [event]) memory kernel entries
      writes := by
  intro memory' kernel' sameMemory sameKernel start seen conn
  obtain ⟨mirrors, counts, serves⟩ :=
    isolated memory' kernel' sameMemory sameKernel
  let loop := Runs.run (step server) (Loop.new llhttp app) past
  have cut :
      seen =
        views server c (Loop.new llhttp app) past ++
          if loop.terminated then []
          else loop.view c (loop.step server event) event :=
    views_concat server c (Loop.new llhttp app) past event
  have stepped :
      Runs.run (step server) (Loop.new llhttp app) (past ++ [event]) =
        loop.step server event :=
    Runs.run_concat ..
  cases terminated : loop.terminated with
  | true =>
      rw [if_pos terminated, List.append_nil] at cut
      have same : loop.step server event = loop := by
        rw [Loop.step.eq_def, if_pos terminated]
      rw [stepped, same]
      simp only [conn, cut]
      refine ⟨mirrors, counts, fun along => ?_⟩
      exact serves (Runs.along_append.mp along).1
  | false =>
      have unread := other terminated
      rw [if_neg (by simp [terminated])] at cut
      have ran :
          conn =
            (start.run (alone server memory' kernel')
              (views server c (Loop.new llhttp app) past)).run
                (alone server memory' kernel')
                (loop.view c (loop.step server event) event) := by
        simp only [conn, cut]
        exact Runs.run_append ..
      have mirrored :=
        mirrors.quiet server (alone server memory' kernel') terminated owned
          promised unread
      rw [stepped, ran]
      refine ⟨mirrored, fun live => ?_, fun along => ?_⟩
      · obtain ⟨before, log, sameWrites⟩ :=
          Conn.run_unread _ _ (view_unread unread) live
        rw [log, sameWrites]
        exact counts before
      · rw [cut]
        apply Runs.along_append.mpr
        exact
          ⟨serves (Runs.along_append.mp along).1,
            Conn.serves_unread _ _ (view_unread unread)⟩

/-- What a read asks for is asked for the first time. -/
theorem Isolated.read
    {server : Server J A} {app : A} {c : Nat} {past : List Event}
    {memory : Nat → Int} {kernel : Nat → KernelAnswer} {entries writes : Nat}
    (isolated :
      Isolated llhttp server app c past memory kernel entries writes)
    (owned :
      (Runs.run (step server) (Loop.new llhttp app) past).Owned)
    (running :
      (Runs.run (step server) (Loop.new llhttp app) past).terminated = false)
    {data : StdString}
    (promised :
      (Runs.run (step server) (Loop.new llhttp app) past).Promised
        (.read c data)) :
    let loop := Runs.run (step server) (Loop.new llhttp app) past
    let after := loop.step server (.read c data)
    Isolated llhttp server app c (past ++ [.read c data])
      (continued (entries + 1) memory fun index =>
        server.memory (loop.calls + index / 2))
      (continued writes kernel fun index =>
        server.kernel (loop.writeReqs.next + index))
      (entries + 2 * (after.calls - loop.calls))
      (writes + (after.writeReqs.next - loop.writeReqs.next)) := by
  intro loop after memory' kernel' sameMemory sameKernel start seen conn
  obtain ⟨mirrors, counts, serves⟩ :=
    isolated memory' kernel'
      (fun index below => by
        rw [sameMemory index (by omega),
          continued_lt (Nat.lt_succ_of_le below)])
      (fun index below => by
        rw [sameKernel index (by omega), continued_lt below])
  have reading : loop.uv.phase (.conn c) = .reading := promised
  rcases mirrors.reading owned running reading with ⟨live, tracks⟩
  obtain ⟨log, written⟩ := counts live
  have stepped : after = loop.onRead server c data := by
    have ran := Loop.step.eq_def server loop (.read c data)
    rwa [if_neg (by simp [loop, running])] at ran
  let alone := Loop.alone server memory' kernel'
  let before := start.run alone (views server c (Loop.new llhttp app) past)
  have status :
      SameStatus server.memory memory' (loop.onRead server c data) loop
        before.session := by
    intro call below
    rw [← stepped] at below
    have index : before.session.log.length = entries := log
    have half : 2 * call / 2 = call := by omega
    rw [index, sameMemory _ (by omega), continued_add, half]
  have kernels :
      SameKernel server.kernel kernel' (loop.onRead server c data) loop
        before.session := by
    intro _ write below
    rw [← stepped] at below
    have index : before.session.stream.writes = writes := written
    rw [index, sameKernel _ (by omega), continued_add]
  obtain ⟨mirrored, outcome, counted⟩ :=
    mirrors.onRead owned running reading data status kernels
  have cut :
      seen = views server c (Loop.new llhttp app) past ++ [.read data] := by
    have split :=
      views_concat server c (Loop.new llhttp app) past (.read c data)
    dsimp only at split
    rw [if_neg (by simp [running])] at split
    exact split.trans (by rw [view, if_pos rfl])
  have ran : conn = before.onRead alone data := by
    have split : conn = before.step alone (.read data) := by
      simp only [conn, cut]
      exact Runs.run_concat ..
    rw [split, PlusWeb.Conn.step, if_pos live]
  rw [Runs.run_concat, ran]
  change after.Mirrors c _ ∧ _
  rw [stepped]
  refine ⟨mirrored, fun stays => ?_, fun along => ?_⟩
  · obtain ⟨⟨mono, calls⟩, mono', writes'⟩ :
        CountsCalls loop after before.session
            (before.onRead alone data).session ∧
          CountsWrites loop after before.session
            (before.onRead alone data).session := by
      rw [stepped]
      exact counted stays
    have closing : (before.onRead alone data).session.closing = false := by
      simp [Session.live] at stays
      exact stays.1
    have count := (writes' closing).2
    have before' : before.session.log.length = entries := log
    have written' : before.session.stream.writes = writes := written
    rw [before'] at calls
    rw [written'] at count
    rw [← stepped]
    constructor
    · omega
    · omega
  · rw [cut]
    rcases Runs.along_append.mp along with ⟨early, last, -⟩
    apply Runs.along_append.mpr
    refine ⟨serves early, fun _ => ?_, trivial⟩
    obtain ⟨pause, closed, returned⟩ := last rfl _ tracks.object
    refine ⟨pause, closed, ?_⟩
    rw [← returned]
    exact outcome.symm

/-- Every connection of a run, accepted or not, is a `Conn` on its own. -/
theorem isolated_run
    (server : Server J A) (app : A) (c : Nat) {events : List Event}
    (promised :
      Runs.Along (step server) Promised (Loop.new llhttp app) events) :
    ∃ memory kernel entries writes,
      Isolated llhttp server app c events memory kernel entries writes := by
  apply
    Runs.history_run
      (fun events =>
        Runs.Along (step server) Promised (Loop.new llhttp app) events →
          ∃ memory kernel entries writes,
            Isolated llhttp server app c events memory kernel entries writes)
      _ _ promised promised
  · intro _
    refine ⟨server.memory, server.kernel, 0, 0, ?_⟩
    intro memory' kernel' _ _ start seen conn
    exact ⟨mirrors_new app c, fun _ => ⟨rfl, rfl⟩, fun _ => trivial⟩
  · intro past event induction next along
    have early := (Runs.along_append.mp along).1
    obtain ⟨memory, kernel, entries, writes, isolated⟩ := induction early
    have owned := owned_run server app early
    by_cases read :
        (Runs.run (step server) (Loop.new llhttp app) past).terminated =
            false ∧
          ∃ data, event = .read c data
    · rcases read with ⟨running, data, rfl⟩
      exact ⟨_, _, _, _, isolated.read owned running next⟩
    · refine
        ⟨memory, kernel, entries, writes, isolated.quiet owned next ?_⟩
      intro running data same
      exact read ⟨running, data, same⟩

/--
In whatever order libuv calls back, each connection of the server is a
connection on its own: it does what it sees of the events, and what libuv
still has to write for it are responses of its log, in order.
-/
theorem connections_isolated
    (server : Server J A) (app : A) {events : List Event}
    (promised :
      Runs.Along (step server) Promised (Loop.new llhttp app) events)
    (c : Nat) :
    ∃ memory kernel,
      (Runs.run (step server) (Loop.new llhttp app) events).Mirrors c
        ((Conn.new llhttp app : PlusWeb.Conn llhttp J A).run
          (alone server memory kernel)
          (views server c (Loop.new llhttp app) events)) := by
  obtain ⟨memory, kernel, entries, writes, isolated⟩ :=
    isolated_run server app c promised
  exact
    ⟨memory, kernel,
      (isolated memory kernel (fun _ _ => rfl) fun _ _ => rfl).1⟩

/--
Two connections; the request of the first is cut in two by that of the
second.
-/
def twoConnections : List Event :=
  [.connection true, .connection true, .read 0 (ascii "GET / HT"),
    .read 1 (ascii "GET /a HTTP/1.1\r\n\r\n"),
    .read 0 (ascii "TP/1.1\r\n\r\n"), .written 0 0]

theorem promised_twoConnections :
    Runs.Along (step helloServer) Promised
      (Loop.new bodilessRequests.llhttp ()) twoConnections := by
  refine ⟨trivial, trivial, ?_, ?_, ?_, ⟨1, ?_⟩, trivial⟩
  · show Uv.phase _ _ = _
    decide +kernel
  · show Uv.phase _ _ = _
    decide +kernel
  · show Uv.phase _ _ = _
    decide +kernel
  · decide +kernel

theorem connections_isolated_twoConnections :
    ∃ memory kernel,
      (Runs.run (step helloServer) (Loop.new bodilessRequests.llhttp ())
          twoConnections).Mirrors 0
        ((Conn.new bodilessRequests.llhttp () :
            PlusWeb.Conn bodilessRequests.llhttp FlatJson Unit).run
          (alone helloServer memory kernel)
          (views helloServer 0 (Loop.new bodilessRequests.llhttp ())
            twoConnections)) := by
  apply connections_isolated helloServer ()
  exact promised_twoConnections

end Loop

end PlusWeb
