import PlusWeb.ConnLifetime

/-!
# What `HttpServer::stop` leads to

`Loop::onStop` closes the listener, the async handle and every connection,
and the loop goes on until nothing is left that libuv would call back for.

More is said here of what libuv can call back for than in the promises that
the pointers rest on: the listener accepts nothing once it is closed, the
async handle is called back only until it is closed, and `uv_walk` goes
through every handle there is.

From then on each callback takes one object or handle away, so that the loop
ends after as many callbacks as there were objects and handles, in whatever
order they come.
-/

namespace PlusWeb

variable {J A : Type} {llhttp : Llhttp}

/-- Whether a handle is still to be closed. -/
def Uv.remains (handle : HandlePtr) (uv : Uv) : Nat :=
  if uv.phase handle = .closed then 0 else 1

theorem Uv.remains_of_ne
    {handle : HandlePtr} {uv : Uv} (unclosed : uv.phase handle ≠ .closed) :
    uv.remains handle = 1 := if_neg unclosed

theorem Uv.remains_closed
    (handle other : HandlePtr) (uv : Uv) :
    (uv.setPhase handle .closed).remains other =
      if other = handle then 0 else uv.remains other := by
  simp only [remains, setPhase, Function.update_apply]
  by_cases same : other = handle
  · simp [same]
  · simp [same]

namespace Loop

/-! ## What libuv can call back for -/

/--
The listener and the async handle call back until they are closed, and
`uv_walk` misses no handle.
-/
def Enabled (loop : Loop llhttp A) : Event → Prop
  | .connection _ | .connectionError => loop.uv.phase .server = .opened
  | .stop walk => loop.uv.phase .stopper = .opened ∧
      ∀ handle, loop.uv.phase handle ≠ .absent →
        loop.uv.phase handle ≠ .closed → handle ∈ walk
  | _ => True

/-- The callbacks that can come next. -/
structure Possible (loop : Loop llhttp A) (event : Event) : Prop where
  running : loop.terminated = false
  promised : loop.Promised event
  enabled : loop.Enabled event

/--
The number of objects, with the listener and the async handle if they are
not closed.
-/
def left (loop : Loop llhttp A) : Nat :=
  loop.conns.inUse.card + loop.writeReqs.inUse.card +
    loop.uv.remains .server + loop.uv.remains .stopper

/-- The listener and the async handle are as `HttpServer` has set them up. -/
structure Listening (loop : Loop llhttp A) : Prop where
  server : loop.uv.phase .server = .opened ∧ loop.uv.closes .server = 0
  stopper : loop.uv.phase .stopper = .opened ∧ loop.uv.closes .stopper = 0

/-- Every handle is closed or on the way there. -/
structure Stopped (loop : Loop llhttp A) : Prop where
  owned : loop.Owned
  running : loop.terminated = false
  handles : ∀ handle,
    loop.uv.phase handle = .absent ∨ loop.uv.phase handle = .closing ∨
      loop.uv.phase handle = .closed
  server : loop.uv.phase .server ≠ .absent ∧ loop.uv.closes .server = 1
  stopper : loop.uv.phase .stopper ≠ .absent ∧ loop.uv.closes .stopper = 1

/--
Nothing is left, and everything there was has been closed and deleted
once.
-/
structure Emptied (loop : Loop llhttp A) : Prop where
  handles : ∀ handle,
    loop.uv.phase handle = .absent ∨
      loop.uv.phase handle = .closed ∧ loop.uv.closes handle = 1
  requests : ∀ request, loop.uv.pending request = none
  conns : ∀ c < loop.conns.next,
    loop.uv.phase (.conn c) = .closed ∧ loop.conns.object c = none ∧
      loop.conns.deletions c = 1
  writeReqs : ∀ wr < loop.writeReqs.next,
    loop.writeReqs.object wr = none ∧ loop.writeReqs.deletions wr = 1
  faults : loop.faults = 0

/-! ## The callbacks of connections leave the listener alone -/

/-- What libuv keeps for the listener and the async handle. -/
def listener (loop : Loop llhttp A) : (Phase × Nat) × (Phase × Nat) :=
  ((loop.uv.phase .server, loop.uv.closes .server),
    (loop.uv.phase .stopper, loop.uv.closes .stopper))

theorem listening_iff {loop : Loop llhttp A} :
    loop.Listening ↔ loop.listener = ((.opened, 0), (.opened, 0)) := by
  simp only [listener, Prod.mk.injEq]
  constructor
  · intro listening
    exact ⟨listening.server, listening.stopper⟩
  · rintro ⟨server, stopper⟩
    exact ⟨server, stopper⟩

theorem closeConn_listener (c : Nat) (loop : Loop llhttp A) :
    (loop.closeConn c).listener = loop.listener := by
  apply withConn_ind (motive := fun after => after.listener = loop.listener)
  · intro conn
    split_ifs
    · rfl
    · simp [listener, Uv.close]
  · rfl

theorem send_listener
    (kernel : Nat → KernelAnswer) (stream : Nat) (head body : StdString)
    (loop : Loop llhttp A) :
    (loop.send kernel stream head body).listener = loop.listener := by
  unfold send
  apply withConn_ind (motive := fun after => after.listener = loop.listener)
  · intro own
    split
    · rfl
    · exact closeConn_listener ..
  · rfl

theorem onConnection_listener (accepted : Bool) (loop : Loop llhttp A) :
    (loop.onConnection accepted).listener = loop.listener := by
  cases accepted with
  | true => simp [onConnection, listener, Uv.setPhase]
  | false =>
      simp only [onConnection, Bool.false_eq_true, if_false]
      rw [closeConn_listener]
      simp [listener, Uv.setPhase]

theorem onWrite_listener (req : Nat) (status : Int) (loop : Loop llhttp A) :
    (loop.onWrite req status).listener = loop.listener := by
  unfold onWrite withWriteReq
  split
  case h_1 own _ =>
    dsimp only
    cases own.handle with
    | none => split_ifs <;> rfl
    | some handle =>
        have closed :
            (loop.withConn handle fun conn =>
              loop.closeConn conn.data).listener = loop.listener := by
          apply
            withConn_ind (motive := fun after =>
              after.listener = loop.listener)
          · intro conn
            exact closeConn_listener ..
          · rfl
        split_ifs
        · exact closed
        · rfl
  case h_2 => rfl

/-! ## `onStop` -/

/-- A handle is closed unless it is being closed already. -/
theorem stopHandle_uv
    {loop : Loop llhttp A} (owned : loop.Owned) {handle : HandlePtr}
    (there : ∀ c, handle = .conn c → loop.Live c) :
    (loop.stopHandle handle).uv =
      if loop.uv.isClosing handle then loop.uv else loop.uv.close handle := by
  cases handle with
  | server =>
      simp only [stopHandle]
      split_ifs <;> rfl
  | stopper =>
      simp only [stopHandle]
      split_ifs <;> rfl
  | conn c =>
      rcases there c rfl with ⟨conn, object⟩
      rcases owned.conn_cases object with ⟨data, phases⟩
      rw [stopHandle, withConn_of_object object, data]
      split_ifs with closing
      · rfl
      · rw [closeConn, withConn_of_object object]
        rcases phases with ⟨idle, -, -⟩ | ⟨-, -, phase⟩
        · rw [idle]
          rfl
        · simp [Uv.isClosing, phase] at closing

/-- What `onStop` leaves as it is. -/
structure SameObjects (start loop : Loop llhttp A) : Prop where
  conns : loop.conns.inUse = start.conns.inUse
  writeReqs : loop.writeReqs = start.writeReqs
  pending : loop.uv.pending = start.uv.pending
  terminated : loop.terminated = start.terminated

theorem closeConn_sameObjects
    {loop : Loop llhttp A} (owned : loop.Owned) (c : Nat) :
    loop.SameObjects (loop.closeConn c) := by
  cases object : loop.conns.object c with
  | none =>
      rw [closeConn, withConn, object]
      exact ⟨rfl, rfl, rfl, rfl⟩
  | some conn =>
      rw [closeConn, withConn_of_object object]
      split_ifs
      · exact ⟨rfl, rfl, rfl, rfl⟩
      · exact ⟨owned.conns.inUse_store object _, rfl, rfl, rfl⟩

theorem stopHandle_sameObjects
    {loop : Loop llhttp A} (owned : loop.Owned) (handle : HandlePtr) :
    loop.SameObjects (loop.stopHandle handle) := by
  cases handle with
  | server =>
      simp only [stopHandle]
      split_ifs <;> exact ⟨rfl, rfl, rfl, rfl⟩
  | stopper =>
      simp only [stopHandle]
      split_ifs <;> exact ⟨rfl, rfl, rfl, rfl⟩
  | conn c =>
      simp only [stopHandle]
      apply withConn_ind (motive := fun after => loop.SameObjects after)
      · intro own
        split_ifs
        · exact ⟨rfl, rfl, rfl, rfl⟩
        · exact closeConn_sameObjects owned own.data
      · exact ⟨rfl, rfl, rfl, rfl⟩

/-- What `onStop` does to a handle. -/
theorem onStop_handle
    {loop : Loop llhttp A} (owned : loop.Owned) {walk : List HandlePtr}
    (there : ∀ handle ∈ walk, ∀ c, handle = .conn c → loop.Live c) :
    (loop.onStop walk).Owned ∧ loop.SameObjects (loop.onStop walk) ∧
      ∀ handle,
        ((loop.onStop walk).uv.phase handle,
            (loop.onStop walk).uv.closes handle) =
          if handle ∈ walk ∧ loop.uv.isClosing handle = false then
            (.closing, loop.uv.closes handle + 1)
          else (loop.uv.phase handle, loop.uv.closes handle) := by
  unfold onStop
  induction walk generalizing loop with
  | nil => exact ⟨owned, ⟨rfl, rfl, rfl, rfl⟩, fun handle => by simp⟩
  | cons first walk induction =>
      rcases List.forall_mem_cons.mp there with ⟨own, later⟩
      have since := (Since.refl owned).stopHandle own
      have uv := stopHandle_uv owned own
      have same := stopHandle_sameObjects owned first
      obtain ⟨kept, objects, handles⟩ :=
        induction since.owned fun handle member c named =>
          since.live c (later handle member c named)
      refine ⟨kept, ?_, fun handle => ?_⟩
      · exact
          ⟨objects.conns.trans same.conns,
            objects.writeReqs.trans same.writeReqs,
            objects.pending.trans same.pending,
            objects.terminated.trans same.terminated⟩
      · rw [List.foldl_cons, handles handle, uv]
        by_cases isFirst : handle = first
        · subst isFirst
          cases closing : loop.uv.isClosing handle with
          | true => simp [closing]
          | false => simp [Uv.close, Uv.isClosing]
        · cases closing : loop.uv.isClosing first with
          | true => simp [isFirst]
          | false => simp [Uv.close, Uv.isClosing, isFirst]

variable [Json J]

theorem onRequest_listener
    (server : Server J A) (stream c : Nat) (request : HttpRequest J)
    (keepAlive : Bool) (start : (Phase × Nat) × (Phase × Nat)) :
    Action.Preserves (fun loop => loop.listener = start)
      ((onRequest server stream c : RequestHandler J (Loop llhttp A)) request
        keepAlive) := by
  intro loop same
  unfold onRequest
  split
  · exact same
  · dsimp only
    split
    · exact same
    · exact (send_listener ..).trans same

theorem onRead_listener
    (server : Server J A) (stream : Nat) (data : StdString)
    (loop : Loop llhttp A) :
    (loop.onRead server stream data).listener = loop.listener := by
  have after (c : Nat) (executed : Executed llhttp) (middle : Loop llhttp A) :
      (afterExecute server stream c (executed, middle)).listener =
        middle.listener := by
    cases executed with
    | accepted parser =>
        have stored :
            (middle.withConn c fun conn =>
              { middle with
                conns :=
                  middle.conns.store c
                    { conn with parser := parser } }).listener =
              middle.listener := by
          apply
            withConn_ind (motive := fun after =>
              after.listener = middle.listener)
          · intro conn
            rfl
          · rfl
        simp only [afterExecute]
        split_ifs
        · exact (closeConn_listener ..).trans stored
        · exact stored
    | failed status reason =>
        apply
          withConn_ind (motive := fun after =>
            after.listener = middle.listener)
        · intro conn
          split
          · exact (closeConn_listener ..).trans (send_listener ..)
          · rfl
        · rfl
    | escaped exception => rfl
  unfold onRead
  apply withConn_ind (motive := fun after => after.listener = loop.listener)
  · intro own
    apply
      withConn_ind (motive := fun after => after.listener = loop.listener)
    · intro conn
      rw [← Prod.mk.eta (p := conn.parser.execute _ data _), after,
        HttpParser.execute_snd]
      exact
        RequestHandler.preserves_each
          (fun request keepAlive =>
            onRequest_listener server stream own.data request keepAlive _)
          _ _ rfl
    · rfl
  · rfl

/--
Only `onStop` and the close callbacks touch the listener and the async
handle.
-/
theorem Listening.step
    (server : Server J A) {loop : Loop llhttp A} (listening : loop.Listening)
    {event : Event} (promised : loop.Promised event)
    (other : ∀ walk, event ≠ .stop walk) :
    (loop.step server event).Listening := by
  rw [listening_iff] at listening ⊢
  rw [← listening]
  unfold Loop.step
  split_ifs
  · rfl
  · cases event with
    | connection accepted => exact onConnection_listener ..
    | connectionError => rfl
    | read stream data => exact onRead_listener ..
    | readError stream =>
        apply
          withConn_ind (motive := fun after =>
            after.listener = loop.listener)
        · intro own
          exact closeConn_listener ..
        · rfl
    | written request status => exact onWrite_listener ..
    | closed handle =>
        have closing := promised.1
        simp only [listener, Prod.mk.injEq] at listening
        cases handle with
        | server =>
            rw [listening.1.1] at closing
            cases closing
        | stopper =>
            rw [listening.2.1] at closing
            cases closing
        | conn c =>
            apply
              withConn_ind (motive := fun after =>
                after.listener = loop.listener)
            · intro own
              simp [listener, Uv.setPhase]
            · simp [listener, fault, Uv.setPhase]
    | stop walk => exact absurd rfl (other walk)

/-- A handle that `uv_walk` can find belongs to an object. -/
theorem Owned.live_of_promised
    {loop : Loop llhttp A} (owned : loop.Owned) {walk : List HandlePtr}
    (promised : loop.Promised (.stop walk)) :
    ∀ handle ∈ walk, ∀ c, handle = .conn c → loop.Live c := by
  rintro handle member c rfl
  rcases promised _ member with ⟨present, unclosed⟩
  exact owned.live_of_phase present unclosed

/-- `onStop` takes nothing away, and leaves no handle open. -/
theorem Listening.stop
    (server : Server J A) {loop : Loop llhttp A} (listening : loop.Listening)
    (owned : loop.Owned) {walk : List HandlePtr}
    (possible : loop.Possible (.stop walk)) :
    (loop.step server (.stop walk)).Stopped ∧
      (loop.step server (.stop walk)).left = loop.left := by
  rcases possible with ⟨running, promised, -, complete⟩
  obtain ⟨kept, same, handles⟩ :=
    onStop_handle owned (owned.live_of_promised promised)
  have stepped : loop.step server (.stop walk) = loop.onStop walk := by
    simp [Loop.step, running]
  have closed {handle : HandlePtr}
      (fresh : loop.uv.phase handle = .opened ∧ loop.uv.closes handle = 0) :
      (loop.onStop walk).uv.phase handle = .closing ∧
        (loop.onStop walk).uv.closes handle = 1 := by
    have member : handle ∈ walk :=
      complete handle (by simp [fresh.1]) (by simp [fresh.1])
    have after := handles handle
    rw [if_pos ⟨member, by simp [Uv.isClosing, fresh.1]⟩, fresh.2] at after
    exact Prod.mk.inj after
  rcases closed listening.server with ⟨serverPhase, serverCloses⟩
  rcases closed listening.stopper with ⟨stopperPhase, stopperCloses⟩
  rw [stepped]
  constructor
  · refine
      { owned := kept
        running := same.terminated.trans running
        handles := ?_
        server := ⟨by simp [serverPhase], serverCloses⟩
        stopper := ⟨by simp [stopperPhase], stopperCloses⟩ }
    intro handle
    have after := handles handle
    by_cases member : handle ∈ walk
    · cases closing : loop.uv.isClosing handle with
      | false =>
          rw [if_pos ⟨member, closing⟩] at after
          exact Or.inr (Or.inl (Prod.mk.inj after).1)
      | true =>
          rw [if_neg (by simp [closing])] at after
          rw [(Prod.mk.inj after).1]
          cases phase : loop.uv.phase handle <;>
            simp [phase, Uv.isClosing] at closing ⊢
    · rw [if_neg fun both => member both.1] at after
      rw [(Prod.mk.inj after).1]
      by_contra open_
      push Not at open_
      exact member (complete handle open_.1 open_.2.2)
  · have before {handle : HandlePtr}
        (phase : loop.uv.phase handle = .opened) :
        loop.uv.remains handle = 1 :=
      Uv.remains_of_ne (by simp [phase])
    have after {handle : HandlePtr}
        (phase : (loop.onStop walk).uv.phase handle = .closing) :
        (loop.onStop walk).uv.remains handle = 1 :=
      Uv.remains_of_ne (by simp [phase])
    rw [left, left, same.conns, same.writeReqs, after serverPhase,
      after stopperPhase, before listening.server.1,
      before listening.stopper.1]

namespace Stopped

variable {loop : Loop llhttp A} (stopped : loop.Stopped)
include stopped

/--
The end of a write takes its request away; the connection is being closed
already.
-/
theorem onWrite
    {request stream : Nat} (pending : loop.uv.pending request = some stream)
    (status : Int) :
    { loop with uv := loop.uv.written request }.onWrite request status =
      { loop with
        writeReqs := loop.writeReqs.delete request
        uv := loop.uv.written request } := by
  obtain ⟨⟨conn, there⟩, -⟩ := stopped.owned.pending _ _ pending
  have closing : conn.closing = true := by
    rcases stopped.owned.conn_cases there with
      ⟨-, ⟨-, -, open_ | open_⟩ | ⟨closing, -⟩⟩
    · simpa [open_] using stopped.handles (.conn stream)
    · simpa [open_] using stopped.handles (.conn stream)
    · exact closing
  rw [stopped.owned.onWrite_eq pending]
  split_ifs
  · simp only [Loop.closeConn, withConn, there, closing, if_true]
  · rfl

omit [Json J] in
theorem not_listening : ¬ loop.Listening := by
  intro listening
  simpa [listening.server.1] using stopped.handles .server

omit [Json J] in
/-- Only the ends of writes and the close callbacks are still to come. -/
theorem possible_cases {event : Event} (possible : loop.Possible event) :
    (∃ request status stream, event = .written request status ∧
        loop.uv.pending request = some stream) ∨
      ∃ handle, event = .closed handle ∧
        loop.uv.phase handle = .closing := by
  rcases possible with ⟨-, promised, enabled⟩
  have unread {stream : Nat} :
      loop.uv.phase (.conn stream) ≠ .reading := by
    intro reading
    simpa [reading] using stopped.handles (.conn stream)
  have unopened {handle : HandlePtr} : loop.uv.phase handle ≠ .opened := by
    intro opened
    simpa [opened] using stopped.handles handle
  cases event with
  | connection accepted => exact absurd enabled unopened
  | connectionError => exact absurd enabled unopened
  | read stream data => exact absurd promised unread
  | readError stream => exact absurd promised unread
  | stop walk => exact absurd enabled.1 unopened
  | written request status =>
      rcases promised with ⟨stream, pending⟩
      exact Or.inl ⟨request, status, stream, rfl, pending⟩
  | closed handle => exact Or.inr ⟨handle, rfl, promised.1⟩

/--
One object or handle less is left after each callback, and nothing is
opened again.
-/
theorem step
    (server : Server J A) {event : Event} (possible : loop.Possible event) :
    (loop.step server event).Stopped ∧
      (loop.step server event).left + 1 = loop.left := by
  have running := possible.running
  have kept := (owned_step server stopped.owned possible.promised).1
  unfold Loop.step at kept ⊢
  rw [if_neg (by simp [running])] at kept ⊢
  rcases stopped.possible_cases possible with
    ⟨request, status, stream, rfl, pending⟩ | ⟨handle, rfl, closing⟩
  · obtain ⟨-, wr, object, -⟩ := stopped.owned.pending _ _ pending
    dsimp only at kept ⊢
    rw [stopped.onWrite pending status] at kept ⊢
    refine
      ⟨⟨kept, running, stopped.handles, stopped.server, stopped.stopper⟩, ?_⟩
    have fewer := stopped.owned.writeReqs.card_inUse_delete object
    show
      loop.conns.inUse.card + (loop.writeReqs.delete request).inUse.card +
            loop.uv.remains .server + loop.uv.remains .stopper + 1 =
        loop.conns.inUse.card + loop.writeReqs.inUse.card +
          loop.uv.remains .server + loop.uv.remains .stopper
    omega
  · have handles (other : HandlePtr) :
        (loop.uv.setPhase handle .closed).phase other = .absent ∨
          (loop.uv.setPhase handle .closed).phase other = .closing ∨
            (loop.uv.setPhase handle .closed).phase other = .closed := by
      simp only [Uv.setPhase, Function.update_apply]
      split_ifs
      · simp
      · exact stopped.handles other
    have present {other : HandlePtr}
        (own :
          loop.uv.phase other ≠ .absent ∧ loop.uv.closes other = 1) :
        (loop.uv.setPhase handle .closed).phase other ≠ .absent ∧
          (loop.uv.setPhase handle .closed).closes other = 1 := by
      simp only [Uv.setPhase, Function.update_apply]
      split_ifs
      · exact ⟨by simp, own.2⟩
      · exact own
    have serverKept := present stopped.server
    have stopperKept := present stopped.stopper
    have remained : loop.uv.remains handle = 1 :=
      Uv.remains_of_ne (by simp [closing])
    cases handle with
    | server =>
        refine ⟨⟨kept, running, handles, serverKept, stopperKept⟩, ?_⟩
        simp only [left, Uv.remains_closed, remained, if_true, reduceCtorEq,
          if_false]
        omega
    | stopper =>
        refine ⟨⟨kept, running, handles, serverKept, stopperKept⟩, ?_⟩
        simp only [left, Uv.remains_closed, remained, if_true, reduceCtorEq,
          if_false]
    | conn c =>
        obtain ⟨conn, object⟩ :=
          stopped.owned.live_of_phase (by simp [closing])
            (by simp [closing] : loop.uv.phase (.conn c) ≠ .closed)
        rcases stopped.owned.conn_cases object with ⟨data, -⟩
        simp only [onConnClosed, withConn, object, data] at kept ⊢
        refine ⟨⟨kept, running, handles, serverKept, stopperKept⟩, ?_⟩
        have fewer := stopped.owned.conns.card_inUse_delete object
        simp only [left, Uv.remains_closed, reduceCtorEq, if_false]
        omega

/-- A handle that is still being closed has not been called back for. -/
theorem closing_of_step
    (server : Server J A) {event : Event} (possible : loop.Possible event)
    {handle : HandlePtr}
    (closing : (loop.step server event).uv.phase handle = .closing) :
    loop.uv.phase handle = .closing ∧ event ≠ .closed handle := by
  have running := possible.running
  unfold Loop.step at closing
  rw [if_neg (by simp [running])] at closing
  rcases stopped.possible_cases possible with
    ⟨request, status, stream, rfl, pending⟩ | ⟨own, rfl, -⟩
  · dsimp only at closing
    rw [stopped.onWrite pending status] at closing
    exact ⟨closing, by simp⟩
  · have phase :
        (loop.uv.setPhase own .closed).phase handle = .closing := by
      cases own with
      | server => exact closing
      | stopper => exact closing
      | conn c =>
          dsimp only [onConnClosed] at closing
          unfold withConn at closing
          split at closing
          · exact closing
          · exact closing
    simp only [Uv.setPhase, Function.update_apply] at phase
    split_ifs at phase with same
    refine ⟨phase, fun equal => same ?_⟩
    rw [Event.closed.inj equal]

omit [Json J] in
/-- Unless a handle is being closed nothing is left. -/
theorem left_eq_zero (quiet : ∀ handle, loop.uv.phase handle ≠ .closing) :
    loop.left = 0 := by
  have closed {handle : HandlePtr}
      (present : loop.uv.phase handle ≠ .absent) :
      loop.uv.phase handle = .closed := by
    rcases stopped.handles handle with absent | closing | closed
    · exact absurd absent present
    · exact absurd closing (quiet handle)
    · exact closed
  have gone (c : Nat) : loop.conns.object c = none := by
    cases object : loop.conns.object c with
    | none => rfl
    | some conn =>
        rcases stopped.owned.conn_cases object with
          ⟨-, ⟨-, -, phase | phase⟩ | ⟨-, -, phase⟩⟩
        · simpa [phase] using stopped.handles (.conn c)
        · simpa [phase] using stopped.handles (.conn c)
        · exact absurd phase (quiet _)
  have noConns : loop.conns.inUse = ∅ :=
    stopped.owned.conns.inUse_eq_empty_iff.mpr gone
  have noWrites : loop.writeReqs.inUse = ∅ := by
    apply stopped.owned.writeReqs.inUse_eq_empty_iff.mpr
    intro request
    cases object : loop.writeReqs.object request with
    | none => rfl
    | some wr =>
        rcases stopped.owned.held request wr object with ⟨stream, pending⟩
        obtain ⟨⟨conn, there⟩, -⟩ := stopped.owned.pending _ _ pending
        rw [gone stream] at there
        cases there
  simp [left, noConns, noWrites, Uv.remains, closed stopped.server.1,
    closed stopped.stopper.1]

omit [Json J] in
/-- As long as something is left libuv has a callback to make. -/
theorem possible_of_left (remains : loop.left ≠ 0) :
    ∃ event, loop.Possible event := by
  by_cases writing : ∃ request stream, loop.uv.pending request = some stream
  · rcases writing with ⟨request, stream, pending⟩
    refine ⟨.written request (-1), stopped.running, ?_, trivial⟩
    exact ⟨stream, pending⟩
  · push Not at writing
    obtain ⟨handle, closing⟩ :
        ∃ handle, loop.uv.phase handle = .closing := by
      by_contra nothing
      push Not at nothing
      exact remains (stopped.left_eq_zero nothing)
    refine ⟨.closed handle, stopped.running, ⟨closing, ?_⟩, trivial⟩
    intro request stream _
    exact writing request stream

omit [Json J] in
theorem emptied_iff : loop.Emptied ↔ loop.left = 0 := by
  have sound := stopped.owned
  constructor
  · intro emptied
    have noConns : loop.conns.inUse = ∅ := by
      apply sound.conns.inUse_eq_empty_iff.mpr
      intro c
      by_cases created : c < loop.conns.next
      · exact (emptied.conns c created).2.1
      · exact (sound.conns.fresh c (not_lt.mp created)).1
    have noWrites : loop.writeReqs.inUse = ∅ := by
      apply sound.writeReqs.inUse_eq_empty_iff.mpr
      intro wr
      by_cases created : wr < loop.writeReqs.next
      · exact (emptied.writeReqs wr created).1
      · exact (sound.writeReqs.fresh wr (not_lt.mp created)).1
    have closed {handle : HandlePtr}
        (present : loop.uv.phase handle ≠ .absent) :
        loop.uv.remains handle = 0 :=
      if_pos
        ((emptied.handles handle).resolve_left present).1
    simp [left, noConns, noWrites, closed stopped.server.1,
      closed stopped.stopper.1]
  · intro nothing
    have parts :
        loop.conns.inUse.card = 0 ∧ loop.writeReqs.inUse.card = 0 ∧
          loop.uv.remains .server = 0 ∧ loop.uv.remains .stopper = 0 := by
      unfold left at nothing
      omega
    rcases parts with ⟨noConns, noWrites, noServer, noStopper⟩
    have conns :=
      sound.conns.inUse_eq_empty_iff.mp (Finset.card_eq_zero.mp noConns)
    have writeReqs :=
      sound.writeReqs.inUse_eq_empty_iff.mp (Finset.card_eq_zero.mp noWrites)
    have closed {handle : HandlePtr} (gone : loop.uv.remains handle = 0) :
        loop.uv.phase handle = .closed := by
      unfold Uv.remains at gone
      split_ifs at gone with closed
      exact closed
    refine
      { handles := ?_
        requests := ?_
        conns := ?_
        writeReqs := fun wr created =>
          ⟨writeReqs wr, sound.writeReqs.deleted wr created (writeReqs wr)⟩
        faults := sound.faults }
    · intro handle
      cases handle with
      | server => exact Or.inr ⟨closed noServer, stopped.server.2⟩
      | stopper => exact Or.inr ⟨closed noStopper, stopped.stopper.2⟩
      | conn c =>
          rcases sound.gone_cases (conns c) with
            ⟨-, -, absent⟩ | ⟨-, closes, phase⟩
          · exact Or.inl absent
          · exact Or.inr ⟨phase, closes⟩
    · intro request
      cases pending : loop.uv.pending request with
      | none => rfl
      | some stream =>
          obtain ⟨-, wr, object, -⟩ := sound.pending _ _ pending
          rw [writeReqs request] at object
          cases object
    · intro c created
      rcases sound.gone_cases (conns c) with ⟨beyond, -⟩ | ⟨-, -, phase⟩
      · exact absurd created beyond.not_gt
      · exact
          ⟨phase, conns c, sound.conns.deleted c created (conns c)⟩

theorem closing_of_run
    (server : Server J A) {events : List Event}
    (possible : Runs.Along (Loop.step server) Possible loop events)
    {handle : HandlePtr}
    (closing :
      (Runs.run (Loop.step server) loop events).uv.phase handle =
        .closing) :
    loop.uv.phase handle = .closing ∧ .closed handle ∉ events := by
  induction events generalizing loop with
  | nil => exact ⟨closing, by simp⟩
  | cons event events induction =>
      rcases stopped.step server possible.1 with ⟨kept, -⟩
      rcases induction kept possible.2 closing with ⟨middle, later⟩
      rcases stopped.closing_of_step server possible.1 middle with
        ⟨before, other⟩
      exact ⟨before, by simp [later, Ne.symm other]⟩

/-- Every run from here gets nearer to the end with each callback. -/
theorem run
    (server : Server J A) {events : List Event}
    (possible : Runs.Along (Loop.step server) Possible loop events) :
    (Runs.run (Loop.step server) loop events).Stopped ∧
      events.length + (Runs.run (Loop.step server) loop events).left =
        loop.left := by
  induction events generalizing loop with
  | nil => exact ⟨stopped, by simp⟩
  | cons event events induction =>
      rcases stopped.step server possible.1 with ⟨kept, fewer⟩
      rcases induction kept possible.2 with ⟨after, count⟩
      refine ⟨after, ?_⟩
      rw [Runs.run_cons, List.length_cons]
      omega

end Stopped

/-! ## Every run -/

/-- A loop listens until `onStop`, and is stopped from then on. -/
structure Reached (loop : Loop llhttp A) : Prop where
  owned : loop.Owned
  stage : loop.Listening ∨ loop.Stopped

theorem Reached.step
    (server : Server J A) {loop : Loop llhttp A} (reached : loop.Reached)
    {event : Event} (possible : loop.Possible event) :
    (loop.step server event).Reached := by
  have kept := (owned_step server reached.owned possible.promised).1
  refine ⟨kept, ?_⟩
  rcases reached.stage with listening | stopped
  · by_cases stop : ∃ walk, event = .stop walk
    · rcases stop with ⟨walk, rfl⟩
      exact Or.inr (listening.stop server reached.owned possible).1
    · push Not at stop
      exact Or.inl (listening.step server possible.promised stop)
  · exact Or.inr (stopped.step server possible).1

omit [Json J] in
theorem reached_new (app : A) : (Loop.new llhttp app).Reached where
  owned := owned_new app
  stage := Or.inl ⟨⟨rfl, rfl⟩, ⟨rfl, rfl⟩⟩

theorem Reached.run
    (server : Server J A) {loop : Loop llhttp A} (reached : loop.Reached)
    {events : List Event}
    (possible : Runs.Along (Loop.step server) Possible loop events) :
    (Runs.run (Loop.step server) loop events).Reached :=
  Runs.invariant_run
    (fun _ _ reached possible => reached.step server possible) reached
    possible

omit [Json J] in
/-- `onStop` is called back once at most. -/
theorem Reached.listening_of_stop
    {loop : Loop llhttp A} (reached : loop.Reached) {walk : List HandlePtr}
    (possible : loop.Possible (.stop walk)) : loop.Listening := by
  rcases reached.stage with listening | stopped
  · exact listening
  · have opened : loop.uv.phase .stopper = .opened := possible.enabled.1
    simpa [opened] using stopped.handles .stopper

/--
After `onStop` there are as many callbacks as there were objects, with the
listener and the async handle: never more, and never fewer unless something
is still going to be called back for.  Then every object has been deleted
once, and every handle closed once.
-/
theorem shutdown
    (server : Server J A) (app : A) {past future : List Event}
    {walk : List HandlePtr}
    (possible :
      Runs.Along (step server) Possible (Loop.new llhttp app)
        (past ++ .stop walk :: future)) :
    let before := Runs.run (step server) (Loop.new llhttp app) past
    let after :=
      Runs.run (step server) (Loop.new llhttp app)
        (past ++ .stop walk :: future)
    future.length ≤ before.left ∧
      (future.length = before.left ↔ after.Emptied) ∧
        (future.length < before.left ↔ ∃ event, after.Possible event) := by
  intro before after
  rcases Runs.along_append.mp possible with ⟨early, stop, late⟩
  have reached : before.Reached := (reached_new app).run server early
  have listening : before.Listening := reached.listening_of_stop stop
  rcases listening.stop server reached.owned stop with ⟨stopped, same⟩
  have state :
      after =
        Runs.run (step server) (before.step server (.stop walk)) future := by
    simp only [after, before, Runs.run_append, Runs.run_cons]
  obtain ⟨end_, count⟩ : after.Stopped ∧
      future.length + after.left = (before.step server (.stop walk)).left := by
    rw [state]
    exact stopped.run server late
  have total : future.length + after.left = before.left := count.trans same
  rw [end_.emptied_iff]
  refine ⟨by omega, by omega, ?_⟩
  constructor
  · intro short
    exact end_.possible_of_left (by omega)
  · rintro ⟨event, next⟩
    have fewer := (end_.step server next).2
    omega

/-- A connection with a response that is still being written. -/
def servedEvents : List Event :=
  [.connection true, .read 0 (ascii "GET / HTTP/1.1\r\n\r\n")]

theorem possible_servedEvents :
    Runs.Along (step helloServer) Possible
      (Loop.new bodilessRequests.llhttp ()) servedEvents := by
  refine ⟨⟨rfl, trivial, rfl⟩, ⟨rfl, ?_, trivial⟩, trivial⟩
  show Uv.phase _ _ = _
  decide

/-- The server is stopped, and the write ends. -/
theorem possible_stoppedEvents :
    Runs.Along (step helloServer) Possible
      (Loop.new bodilessRequests.llhttp ())
      (servedEvents ++
        [.stop [.server, .stopper, .conn 0], .written 0 (-125)]) := by
  have reached :=
    (reached_new ()).run helloServer possible_servedEvents
  apply Runs.along_append.mpr
  refine
    ⟨possible_servedEvents, ⟨?_, ?_, ?_, ?_⟩, ⟨?_, ?_, trivial⟩, trivial⟩
  · decide +kernel
  · show ∀ handle ∈ _, Uv.phase _ _ ≠ _ ∧ Uv.phase _ _ ≠ _
    decide +kernel
  · show Uv.phase _ _ = _
    decide +kernel
  · intro handle present _
    cases handle with
    | server => simp
    | stopper => simp
    | conn c =>
        by_cases first : c = 0
        · simp [first]
        · have created :
              (Runs.run (step helloServer)
                (Loop.new bodilessRequests.llhttp ())
                servedEvents).conns.next = 1 := by
            decide +kernel
          have beyond :
              (Runs.run (step helloServer)
                (Loop.new bodilessRequests.llhttp ())
                servedEvents).conns.next ≤ c := by
            omega
          rcases reached.owned.gone_cases
            (reached.owned.conns.fresh c beyond).1 with
            ⟨-, -, absent⟩ | ⟨below, -⟩
          · exact absurd absent present
          · exact absurd below beyond.not_gt
  · decide +kernel
  · refine ⟨0, ?_⟩
    decide +kernel

/-- Then the connection, the listener and the async handle are closed. -/
theorem possible_closedEvents :
    Runs.Along (step helloServer) Possible
      (Runs.run (step helloServer) (Loop.new bodilessRequests.llhttp ())
        (servedEvents ++
          [.stop [.server, .stopper, .conn 0], .written 0 (-125)]))
      [.closed (.conn 0), .closed .server, .closed .stopper] := by
  have reached :=
    (reached_new ()).run helloServer possible_stoppedEvents
  refine
    ⟨⟨?_, ⟨?_, ?_⟩, trivial⟩, ⟨?_, ⟨?_, ?_⟩, trivial⟩,
      ⟨?_, ⟨?_, ?_⟩, trivial⟩, trivial⟩
  · decide +kernel
  · show Uv.phase _ _ = _
    decide +kernel
  · intro request stream _ accepted
    rcases reached.owned.pending request stream accepted with
      ⟨-, wr, object, -⟩
    have created :
        (Runs.run (step helloServer) (Loop.new bodilessRequests.llhttp ())
          (servedEvents ++
            [.stop [.server, .stopper, .conn 0],
              .written 0 (-125)])).writeReqs.next = 1 := by
      decide +kernel
    have below := reached.owned.writeReqs.lt_next object
    rw [created] at below
    have ended :
        ∀ request < 1,
          (Runs.run (step helloServer) (Loop.new bodilessRequests.llhttp ())
            (servedEvents ++
              [.stop [.server, .stopper, .conn 0],
                .written 0 (-125)])).uv.pending request = none := by
      decide +kernel
    rw [ended request below] at accepted
    cases accepted
  · decide +kernel
  · show Uv.phase _ _ = _
    decide +kernel
  · intro request stream other
    cases other
  · decide +kernel
  · show Uv.phase _ _ = _
    decide +kernel
  · intro request stream other
    cases other

/-- The write, the connection, the listener and the async handle are left. -/
theorem shutdown_servedEvents :
    let before :=
      Runs.run (step helloServer) (Loop.new bodilessRequests.llhttp ())
        servedEvents
    let after :=
      Runs.run (step helloServer) (Loop.new bodilessRequests.llhttp ())
        (servedEvents ++
          [.stop [.server, .stopper, .conn 0], .written 0 (-125)])
    [Event.written 0 (-125)].length ≤ before.left ∧
      ([Event.written 0 (-125)].length = before.left ↔ after.Emptied) ∧
        ([Event.written 0 (-125)].length < before.left ↔
          ∃ event, after.Possible event) := by
  apply shutdown helloServer ()
  exact possible_stoppedEvents

end Loop

end PlusWeb
