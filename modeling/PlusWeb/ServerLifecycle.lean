import PlusWeb.Shutdown

/-!
# `HttpServer` from its constructor to its destructor

`serve` runs the loop unless a stop was requested, `stop` may be called by any
thread and wakes the loop, and the destructor stops the server and spins the
loop, 64 rounds at most, until nothing is alive.

Two things are taken from libuv: `onStop` is called back only if the async
handle was sent to, and a round of `UV_RUN_NOWAIT` makes the callbacks that
are due at its start, of the async handle and of the handles being closed.
-/

namespace PlusWeb

variable {J A : Type} {llhttp : Llhttp}

/-- Whether libuv still has a handle. -/
def Uv.present (handle : HandlePtr) (uv : Uv) : Bool :=
  match uv.phase handle with
  | .opened | .reading | .closing => true
  | .absent | .closed => false

/-- `uv_loop_alive`. -/
def Loop.alive (loop : Loop llhttp A) : Bool :=
  loop.uv.present .server || loop.uv.present .stopper ||
    (List.range loop.conns.next).any (fun c => loop.uv.present (.conn c)) ||
      (List.range loop.writeReqs.next).any fun request =>
        (loop.uv.pending request).isSome

/-- Where the thread is that owns the server. -/
inductive Stage where
  | idle
  | serving
  | destroying (rounds : Nat)
  | destroyed
deriving DecidableEq, Repr

/--
`class HttpServer`, and whether the async handle was sent to since its
last callback.
-/
structure HttpServer (llhttp : Llhttp) (A : Type) where
  loop : Loop llhttp A
  signalled : Bool
  running : Bool
  stopRequested : Bool
  stage : Stage

namespace HttpServer

/-- `HttpServer(int)`, if nothing fails. -/
def new (llhttp : Llhttp) (app : A) : HttpServer llhttp A where
  loop := Loop.new llhttp app
  signalled := false
  running := false
  stopRequested := false
  stage := .idle

/-- `serve`, up to the call of `uv_run`. -/
def serve (http : HttpServer llhttp A) : HttpServer llhttp A :=
  if http.stopRequested then http
  else { http with running := true, stage := .serving }

/-- `stop`.  A closed async handle is not called back. -/
def stop (http : HttpServer llhttp A) : HttpServer llhttp A :=
  { http with
    stopRequested := true
    signalled := http.signalled || !http.loop.uv.isClosing .stopper }

/-- The loop of the destructor, before its next round. -/
def spin (rounds : Nat) (http : HttpServer llhttp A) : HttpServer llhttp A :=
  { http with
    stage :=
      if rounds < 64 ∧ http.loop.alive = true then .destroying rounds
      else .destroyed }

variable [Json J]

/-- libuv calls back. -/
def call (server : Server J A) (http : HttpServer llhttp A)
    (event : Loop.Event) : HttpServer llhttp A :=
  { http with
    loop := http.loop.step server event
    signalled :=
      match event with
      | .stop _ => false
      | _ => http.signalled }

/-- What happens to a server.  A round is one `uv_run` of the destructor. -/
inductive Event where
  | serve
  | stop
  | callback (event : Loop.Event)
  | returns
  | destroy
  | round (callbacks : List Loop.Event)

def step (server : Server J A) (http : HttpServer llhttp A) :
    Event → HttpServer llhttp A
  | .serve => http.serve
  | .stop => http.stop
  | .callback event => http.call server event
  | .returns => { http with running := false, stage := .idle }
  | .destroy => http.stop.spin 0
  | .round callbacks =>
      match http.stage with
      | .destroying rounds =>
          (Runs.run (call server) http callbacks).spin (rounds + 1)
      | _ => http

omit [Json J] in
/-- `onStop` is called back only after a signal. -/
structure Callable (http : HttpServer llhttp A) (event : Loop.Event) :
    Prop where
  possible : http.loop.Possible event
  signalled : ∀ walk, event = .stop walk → http.signalled = true

/-- What a round of `UV_RUN_NOWAIT` does at least. -/
structure Round (server : Server J A) (http : HttpServer llhttp A)
    (callbacks : List Loop.Event) : Prop where
  callable : Runs.Along (call server) Callable http callbacks
  wakes : http.signalled = true → ∃ walk, .stop walk ∈ callbacks
  closes : ∀ handle, http.loop.uv.phase handle = .closing →
    .closed handle ∈ callbacks

/--
What can happen next: `serve` and the destructor are called by the owner,
and `uv_run` returns when nothing is alive.
-/
def Allowed (server : Server J A) (http : HttpServer llhttp A) :
    Event → Prop
  | .serve => http.stage = .idle
  | .stop => http.stage = .idle ∨ http.stage = .serving
  | .callback event => http.stage = .serving ∧ http.Callable event
  | .returns => http.stage = .serving ∧ http.loop.alive = false
  | .destroy => http.stage = .idle
  | .round callbacks =>
      (∃ rounds, http.stage = .destroying rounds) ∧
        http.Round server callbacks

end HttpServer

/-! ## Being alive -/

namespace Loop

variable {loop : Loop llhttp A}

theorem Listening.alive (listening : loop.Listening) : loop.alive = true := by
  simp [Loop.alive, Uv.present, listening.server.1]

theorem Emptied.alive (emptied : loop.Emptied) : loop.alive = false := by
  have gone (handle : HandlePtr) : loop.uv.present handle = false := by
    rcases emptied.handles handle with absent | ⟨closed, -⟩
    · simp [Uv.present, absent]
    · simp [Uv.present, closed]
  simp [Loop.alive, gone, emptied.requests]

/-- No handle of a loop that is not alive is being closed. -/
theorem Owned.quiet
    (owned : loop.Owned) (dead : loop.alive = false) (handle : HandlePtr) :
    loop.uv.phase handle ≠ .closing := by
  intro closing
  have present : loop.uv.present handle = true := by
    simp [Uv.present, closing]
  simp only [Loop.alive, Bool.or_eq_false_iff, List.any_eq_false,
    List.mem_range] at dead
  rcases dead with ⟨⟨⟨server, stopper⟩, conns⟩, -⟩
  cases handle with
  | server => simp [present] at server
  | stopper => simp [present] at stopper
  | conn c =>
      rcases owned.live_of_phase (by simp [closing])
        (by simp [closing] : loop.uv.phase (.conn c) ≠ .closed) with
        ⟨conn, object⟩
      exact conns c (owned.conns.lt_next object) present

/-- The loop ends when everything is closed and deleted. -/
theorem Reached.emptied
    (reached : loop.Reached) (dead : loop.alive = false) :
    loop.Stopped ∧ loop.Emptied := by
  rcases reached.stage with listening | stopped
  · rw [listening.alive] at dead
    cases dead
  · exact
      ⟨stopped,
        stopped.emptied_iff.mpr
          (stopped.left_eq_zero (reached.owned.quiet dead))⟩

end Loop

namespace HttpServer

/-! ## What every event keeps -/

/--
A stop that was requested is not forgotten: the loop is woken, or has
been stopped.
-/
structure Attentive (http : HttpServer llhttp A) : Prop where
  reached : http.loop.Reached
  asleep : http.stopRequested = false →
    http.signalled = false ∧ http.loop.Listening
  awake : http.stopRequested = true → http.loop.Listening →
    http.signalled = true

/--
`running` says that `serve` is under way, and the destructor needs two
rounds at most.
-/
structure Consistent (http : HttpServer llhttp A) : Prop
    extends http.Attentive where
  running : http.running = true ↔ http.stage = .serving
  rounds : ∀ rounds, http.stage = .destroying rounds →
    http.stopRequested = true ∧
      (rounds = 0 ∨ rounds = 1 ∧ http.loop.Stopped)
  ended : http.stage = .destroyed →
    http.stopRequested = true ∧ http.loop.Emptied

theorem consistent_new (app : A) : (new llhttp app).Consistent where
  reached := Loop.reached_new app
  asleep _ := ⟨rfl, ⟨⟨rfl, rfl⟩, ⟨rfl, rfl⟩⟩⟩
  awake requested := by cases requested
  running := by simp [new]
  rounds _ destroying := by cases destroying
  ended destroyed := by cases destroyed

theorem Attentive.stop
    {http : HttpServer llhttp A} (attentive : http.Attentive) :
    http.stop.Attentive where
  reached := attentive.reached
  asleep unasked := by cases unasked
  awake _ listening := by
    have unclosed : http.loop.uv.isClosing .stopper = false := by
      have opened : http.loop.uv.phase .stopper = .opened :=
        listening.stopper.1
      simp [Uv.isClosing, opened]
    simp [HttpServer.stop, unclosed]

variable [Json J]

theorem run_call_loop
    (server : Server J A) (http : HttpServer llhttp A)
    (callbacks : List Loop.Event) :
    (Runs.run (call server) http callbacks).loop =
      Runs.run (Loop.step server) http.loop callbacks := by
  induction callbacks generalizing http with
  | nil => rfl
  | cons event callbacks induction => exact induction (http.call server event)

theorem along_possible
    {server : Server J A} {http : HttpServer llhttp A}
    {callbacks : List Loop.Event}
    (callable : Runs.Along (call server) Callable http callbacks) :
    Runs.Along (Loop.step server) Loop.Possible http.loop callbacks := by
  induction callbacks generalizing http with
  | nil => trivial
  | cons event callbacks induction =>
      exact ⟨callable.1.possible, induction callable.2⟩

/-- What no callback of libuv changes. -/
theorem run_call_requested
    (server : Server J A) (http : HttpServer llhttp A)
    (callbacks : List Loop.Event) :
    (Runs.run (call server) http callbacks).running = http.running ∧
      (Runs.run (call server) http callbacks).stopRequested =
        http.stopRequested := by
  induction callbacks generalizing http with
  | nil => exact ⟨rfl, rfl⟩
  | cons event callbacks induction => exact induction (http.call server event)

theorem Attentive.call
    (server : Server J A) {http : HttpServer llhttp A}
    (attentive : http.Attentive) {event : Loop.Event}
    (callable : http.Callable event) :
    (http.call server event).Attentive := by
  have reached := attentive.reached.step server callable.possible
  by_cases stop : ∃ walk, event = .stop walk
  · rcases stop with ⟨walk, rfl⟩
    have stopped : (http.loop.step server (.stop walk)).Stopped :=
      ((attentive.reached.listening_of_stop callable.possible).stop server
        attentive.reached.owned callable.possible).1
    constructor
    · exact reached
    · intro unasked
      have signalled := callable.signalled walk rfl
      rw [(attentive.asleep unasked).1] at signalled
      cases signalled
    · intro _ listening
      exact absurd listening stopped.not_listening
  · push Not at stop
    have signalled : (http.call server event).signalled = http.signalled := by
      cases event with
      | stop walk => exact absurd rfl (stop walk)
      | _ => rfl
    constructor
    · exact reached
    · intro unasked
      rcases attentive.asleep unasked with ⟨unsignalled, listening⟩
      rw [signalled]
      exact
        ⟨unsignalled,
          listening.step server callable.possible.promised stop⟩
    · intro asked listening
      rw [signalled]
      rcases attentive.reached.stage with before | stopped
      · exact attentive.awake asked before
      · exact
          absurd listening
            (stopped.step server callable.possible).1.not_listening

/-- `serve` and the destructor do not end by a callback. -/
theorem run_call_stage
    (server : Server J A) (http : HttpServer llhttp A)
    (callbacks : List Loop.Event) :
    (Runs.run (call server) http callbacks).stage = http.stage := by
  induction callbacks generalizing http with
  | nil => rfl
  | cons event callbacks induction => exact induction (http.call server event)

/--
After a round in which libuv made the callbacks that were due, the loop
is stopped, and nothing is left if it was stopped before.
-/
theorem Round.stops
    {server : Server J A} {http : HttpServer llhttp A}
    {callbacks : List Loop.Event} (round : http.Round server callbacks)
    (attentive : http.Attentive) (asked : http.stopRequested = true) :
    let after := Runs.run (call server) http callbacks
    after.Attentive ∧ after.loop.Stopped ∧
      (http.loop.Stopped → after.loop.Emptied) := by
  intro after
  have kept : after.Attentive :=
    Runs.invariant_run
      (fun _ _ attentive callable => attentive.call server callable)
      attentive round.callable
  have possible := along_possible round.callable
  have loop : after.loop = Runs.run (Loop.step server) http.loop callbacks :=
    run_call_loop server http callbacks
  refine ⟨kept, ?_, ?_⟩
  · rcases attentive.reached.stage with listening | stopped
    · rcases round.wakes (attentive.awake asked listening) with
        ⟨walk, member⟩
      rcases List.append_of_mem member with ⟨past, future, rfl⟩
      rcases Runs.along_append.mp possible with ⟨early, stop, late⟩
      have reached := attentive.reached.run server early
      rw [loop, Runs.run_append, Runs.run_cons]
      exact
        (((reached.listening_of_stop stop).stop server reached.owned
          stop).1.run server late).1
    · rw [loop]
      exact (stopped.run server possible).1
  · intro stopped
    have end_ : after.loop.Stopped := by
      rw [loop]
      exact (stopped.run server possible).1
    apply end_.emptied_iff.mpr
    apply end_.left_eq_zero
    intro handle closing
    rw [loop] at closing
    rcases stopped.closing_of_run server possible closing with
      ⟨before, uncalled⟩
    exact uncalled (round.closes handle before)

theorem Consistent.step
    {server : Server J A} {http : HttpServer llhttp A}
    (consistent : http.Consistent) {event : Event}
    (allowed : http.Allowed server event) :
    (http.step server event).Consistent := by
  cases event with
  | serve =>
      have idle : http.stage = .idle := allowed
      simp only [HttpServer.step, serve]
      split_ifs with asked
      · exact consistent
      · exact
          { reached := consistent.reached
            asleep := consistent.asleep
            awake := consistent.awake
            running := by simp
            rounds := fun rounds destroying => by cases destroying
            ended := fun destroyed => by cases destroyed }
  | stop =>
      refine
        { consistent.toAttentive.stop with
          running := consistent.running
          rounds := fun rounds destroying =>
            ⟨rfl, (consistent.rounds rounds destroying).2⟩
          ended := fun destroyed => ⟨rfl, (consistent.ended destroyed).2⟩ }
  | callback event =>
      rcases allowed with ⟨serving, callable⟩
      have other {stage : Stage} (apart : stage ≠ .serving) :
          http.stage ≠ stage := by
        rw [serving]
        exact apart.symm
      exact
        { consistent.toAttentive.call server callable with
          running := consistent.running
          rounds := fun rounds destroying =>
            absurd destroying (other (by simp))
          ended := fun destroyed => absurd destroyed (other (by simp)) }
  | returns =>
      exact
        { reached := consistent.reached
          asleep := consistent.asleep
          awake := consistent.awake
          running := by simp [HttpServer.step]
          rounds := fun rounds destroying => by cases destroying
          ended := fun destroyed => by cases destroyed }
  | destroy =>
      have idle : http.stage = .idle := allowed
      have kept := consistent.toAttentive.stop
      have running : http.running = false := by
        rw [← Bool.not_eq_true, consistent.running, idle]
        simp
      simp only [HttpServer.step, spin]
      refine
        { reached := kept.reached
          asleep := kept.asleep
          awake := kept.awake
          running := ?_
          rounds := ?_
          ended := ?_ }
      · simp only [HttpServer.stop, running]
        split_ifs <;> simp
      · intro rounds destroying
        split_ifs at destroying with alive
        exact ⟨rfl, Or.inl (Stage.destroying.inj destroying).symm⟩
      · intro destroyed
        split_ifs at destroyed with alive
        have dead : http.loop.alive = false := by
          simpa [HttpServer.stop] using alive
        exact ⟨rfl, (kept.reached.emptied dead).2⟩
  | round callbacks =>
      rcases allowed with ⟨⟨rounds, destroying⟩, round⟩
      rcases consistent.rounds rounds destroying with ⟨asked, spun⟩
      obtain ⟨kept, stopped, emptied⟩ :=
        round.stops consistent.toAttentive asked
      rcases run_call_requested server http callbacks with
        ⟨running, requested⟩
      have idle : http.running = false := by
        rw [← Bool.not_eq_true, consistent.running, destroying]
        simp
      simp only [HttpServer.step, destroying, spin]
      refine
        { reached := kept.reached
          asleep := kept.asleep
          awake := kept.awake
          running := ?_
          rounds := ?_
          ended := ?_ }
      · rw [running, idle]
        split_ifs <;> simp
      · intro more spinning
        split_ifs at spinning with alive
        obtain rfl := Stage.destroying.inj spinning
        refine ⟨requested.trans asked, Or.inr ⟨?_, stopped⟩⟩
        rcases spun with rfl | ⟨rfl, before⟩
        · rfl
        · rw [(emptied before).alive] at alive
          cases alive.2
      · intro ended
        split_ifs at ended with alive
        refine ⟨requested.trans asked, ?_⟩
        have few : rounds + 1 < 64 := by omega
        have dead :
            (Runs.run (HttpServer.call server) http callbacks).loop.alive =
              false := by
          simpa [few] using alive
        exact (kept.reached.emptied dead).2

/-! ## Every run -/

omit [Json J] in
/-- The callbacks of libuv in an event. -/
def Event.callbacks : Event → List Loop.Event
  | .callback event => [event]
  | .round callbacks => callbacks
  | _ => []

/-- The loop is run by its callbacks alone. -/
theorem step_loop
    {server : Server J A} {http : HttpServer llhttp A} {event : Event}
    (allowed : http.Allowed server event) :
    (http.step server event).loop =
        Runs.run (Loop.step server) http.loop event.callbacks ∧
      Runs.Along (Loop.step server) Loop.Possible http.loop
        event.callbacks := by
  cases event with
  | serve =>
      simp only [step, serve]
      split_ifs <;> exact ⟨rfl, trivial⟩
  | stop => exact ⟨rfl, trivial⟩
  | callback event => exact ⟨rfl, allowed.2.possible, trivial⟩
  | returns => exact ⟨rfl, trivial⟩
  | destroy => exact ⟨rfl, trivial⟩
  | round callbacks =>
      rcases allowed with ⟨⟨rounds, destroying⟩, round⟩
      simp only [step, destroying]
      exact
        ⟨run_call_loop server http callbacks,
          along_possible round.callable⟩

theorem stopRequested_step
    (server : Server J A) (http : HttpServer llhttp A) (event : Event) :
    (http.step server event).stopRequested =
      (http.stopRequested ||
        match event with
        | .stop | .destroy => true
        | _ => false) := by
  cases event with
  | serve =>
      simp only [step, serve]
      split_ifs <;> simp
  | stop => simp [step, stop]
  | callback event => simp [step, call]
  | returns => simp [step]
  | destroy => simp [step, spin, stop]
  | round callbacks =>
      simp only [step]
      split
      · simp [spin, run_call_requested]
      · simp

/-- What a maintainer relies on, of a server after some events. -/
structure Lifecycle
    (server : Server J A) (start : HttpServer llhttp A)
    (events : List Event) : Prop where
  /--
  The loop has made the callbacks that are among the events, each of which
  libuv could make.
  -/
  loop : (Runs.run (step server) start events).loop =
      Runs.run (Loop.step server) start.loop
        (events.flatMap Event.callbacks) ∧
    Runs.Along (Loop.step server) Loop.Possible start.loop
      (events.flatMap Event.callbacks)
  consistent : (Runs.run (step server) start events).Consistent
  /--
  `stop` is remembered, and outside the destructor nothing else counts as
  a stop.
  -/
  requested :
    (.stop ∈ events →
      (Runs.run (step server) start events).stopRequested = true) ∧
    ((Runs.run (step server) start events).stage = .idle ∨
        (Runs.run (step server) start events).stage = .serving →
      (Runs.run (step server) start events).stopRequested = true →
        .stop ∈ events)
  /--
  `uv_run` returns only after a stop, and when all is closed and
  deleted.
  -/
  returns : ∀ past future, events = past ++ .returns :: future →
    .stop ∈ past ∧ (Runs.run (step server) start past).loop.Emptied
  /-- After a stop `serve` returns at once. -/
  serves : ∀ past future, events = past ++ .serve :: future →
    .stop ∈ past →
      Runs.run (step server) start (past ++ [.serve]) =
        Runs.run (step server) start past

theorem Lifecycle.step
    {server : Server J A} {start : HttpServer llhttp A} {past : List Event}
    (lifecycle : Lifecycle server start past) {event : Event}
    (allowed : (Runs.run (step server) start past).Allowed server event) :
    Lifecycle server start (past ++ [event]) := by
  have consistent := lifecycle.consistent
  rcases lifecycle.requested with ⟨remembers, blames⟩
  rcases step_loop allowed with ⟨loop, possible⟩
  rcases lifecycle.loop with ⟨pastLoop, pastPossible⟩
  have asked :=
    stopRequested_step server (Runs.run (HttpServer.step server) start past)
      event
  constructor
  · rw [Runs.run_concat, loop, pastLoop, List.flatMap_append,
      List.flatMap_singleton, Runs.run_append, Runs.along_append]
    rw [pastLoop] at possible
    exact ⟨rfl, pastPossible, possible⟩
  · rw [Runs.run_concat]
    exact consistent.step allowed
  · rw [Runs.run_concat, asked]
    constructor
    · intro member
      rcases List.mem_append.mp member with early | last
      · rw [remembers early, Bool.true_or]
      · rw [← List.mem_singleton.mp last, Bool.or_true]
    · intro outside requested
      apply List.mem_append.mpr
      cases event with
      | stop => exact Or.inr (List.mem_singleton_self _)
      | serve =>
          rw [Bool.or_false] at requested
          exact Or.inl (blames (Or.inl allowed) requested)
      | callback event =>
          rw [Bool.or_false] at requested
          exact Or.inl (blames (Or.inr allowed.1) requested)
      | returns =>
          rw [Bool.or_false] at requested
          exact Or.inl (blames (Or.inr allowed.1) requested)
      | destroy =>
          simp only [HttpServer.step, spin] at outside
          split_ifs at outside <;> simp at outside
      | round callbacks =>
          rcases allowed with ⟨⟨rounds, destroying⟩, -⟩
          simp only [HttpServer.step, destroying, spin] at outside
          split_ifs at outside <;> simp at outside
  · intro before future cut
    rcases Runs.append_singleton_eq_iff.mp cut with
      ⟨rfl, rfl, -⟩ | ⟨rest, -, cut⟩
    · rcases allowed with ⟨serving, dead⟩
      rcases consistent.reached.emptied dead with ⟨stopped, emptied⟩
      refine ⟨blames (Or.inr serving) ?_, emptied⟩
      by_contra unasked
      exact
        stopped.not_listening
          (consistent.asleep (Bool.eq_false_iff.mpr unasked)).2
    · exact lifecycle.returns before rest cut
  · intro before future cut stop
    rcases Runs.append_singleton_eq_iff.mp cut with
      ⟨rfl, rfl, -⟩ | ⟨rest, -, cut⟩
    · rw [Runs.run_concat]
      simp [HttpServer.step, serve, remembers stop]
    · exact lifecycle.serves before rest cut stop

/--
A server serves until it is stopped: `uv_run` returns after a stop only,
with everything closed and deleted once, no stop is forgotten, and the
destructor needs two rounds at most for the same.
-/
theorem serve_until_stop
    (server : Server J A) (app : A) {events : List Event}
    (allowed :
      Runs.Along (step server) (Allowed server) (new llhttp app) events) :
    Lifecycle server (new llhttp app) events := by
  apply Runs.history_run (Lifecycle server (new llhttp app)) _ _ allowed
  · exact
      { loop := ⟨rfl, trivial⟩
        consistent := consistent_new app
        requested := ⟨by simp, fun _ requested => by cases requested⟩
        returns := by simp
        serves := by simp }
  · intro past event lifecycle next
    exact lifecycle.step next

/-- Callbacks of a server that serves, none of them `onStop`. -/
theorem along_callbacks
    {server : Server J A} {http : HttpServer llhttp A}
    (serving : http.stage = .serving) {callbacks : List Loop.Event}
    (possible :
      Runs.Along (Loop.step server) Loop.Possible http.loop callbacks)
    (unstopped : ∀ walk, .stop walk ∉ callbacks) :
    Runs.Along (step server) (Allowed server) http
      (callbacks.map Event.callback) := by
  induction callbacks generalizing http with
  | nil => trivial
  | cons event callbacks induction =>
      have first : http.Callable event :=
        { possible := possible.1
          signalled := by
            rintro walk rfl
            exact absurd List.mem_cons_self (unstopped walk) }
      have later : Runs.Along (step server) (Allowed server)
          (http.call server event) (callbacks.map Event.callback) := by
        apply induction _ possible.2
        · exact fun walk member =>
            unstopped walk (List.mem_cons_of_mem _ member)
        · exact serving
      exact ⟨⟨serving, first⟩, later⟩

theorem run_callbacks
    (server : Server J A) (http : HttpServer llhttp A)
    (callbacks : List Loop.Event) :
    Runs.run (step server) http (callbacks.map Event.callback) =
      Runs.run (call server) http callbacks := by
  induction callbacks generalizing http with
  | nil => rfl
  | cons event callbacks induction => exact induction (http.call server event)

/-- `serve`, some callbacks, `stop`, more callbacks, and the destructor. -/
def lifetime (past : List Loop.Event) (walk : List HandlePtr)
    (rest : List Loop.Event) : List Event :=
  .serve :: past.map .callback ++
    (.stop :: .callback (.stop walk) ::
      (rest.map .callback ++ [.returns, .destroy]))

/-- Each run of the loop up to its end is that of such a server. -/
theorem along_lifetime
    {server : Server J A} {http : HttpServer llhttp A}
    (idle : http.stage = .idle) (unasked : http.stopRequested = false)
    {past rest : List Loop.Event} {walk : List HandlePtr}
    (possible :
      Runs.Along (Loop.step server) Loop.Possible http.loop
        (past ++ .stop walk :: rest))
    (unstopped : ∀ walk, .stop walk ∉ past ++ rest)
    (dead :
      (Runs.run (Loop.step server) http.loop
        (past ++ .stop walk :: rest)).alive = false) :
    Runs.Along (step server) (Allowed server) http
      (lifetime past walk rest) := by
  have serving : http.serve.stage = .serving := by simp [serve, unasked]
  have own : http.serve.loop = http.loop := by simp [serve, unasked]
  obtain ⟨early, stop, late⟩ := Runs.along_append.mp possible
  rw [Runs.run_append, Runs.run_cons] at dead
  rw [← own] at early stop late dead
  have before : ∀ walk, .stop walk ∉ past := fun walk member =>
    unstopped walk (List.mem_append_left _ member)
  have after : ∀ walk, .stop walk ∉ rest := fun walk member =>
    unstopped walk (List.mem_append_right _ member)
  apply Runs.along_append.mpr
  refine ⟨⟨idle, along_callbacks serving early before⟩, ?_⟩
  rw [Runs.run_cons]
  change
    Runs.Along (step server) (Allowed server)
      (Runs.run (step server) http.serve (past.map Event.callback)) _
  rw [run_callbacks]
  rw [← run_call_loop] at stop late dead
  have busy := run_call_stage server http.serve past
  rw [serving] at busy
  generalize Runs.run (call server) http.serve past = here at *
  have called : here.stop.Callable (.stop walk) :=
    { possible := stop
      signalled := fun _ _ => by
        have opened : here.loop.uv.phase .stopper = .opened :=
          stop.enabled.1
        simp [HttpServer.stop, Uv.isClosing, opened] }
  refine ⟨Or.inr busy, ⟨busy, called⟩, ?_⟩
  have stage : (here.stop.call server (.stop walk)).stage = .serving := busy
  apply Runs.along_append.mpr
  refine ⟨along_callbacks stage late after, ?_⟩
  change
    Runs.Along (step server) (Allowed server)
      (Runs.run (step server) (here.stop.call server (.stop walk))
        (rest.map Event.callback)) _
  rw [run_callbacks]
  have still :=
    run_call_stage server (here.stop.call server (.stop walk)) rest
  rw [stage] at still
  have ended :
      (Runs.run (call server) (here.stop.call server (.stop walk))
        rest).loop.alive = false := by
    rw [run_call_loop]
    exact dead
  exact ⟨⟨still, ended⟩, rfl, trivial⟩

/--
A server serves a request, is stopped while the response is being written,
and goes out of scope.
-/
def servedLifetime : List Event :=
  lifetime Loop.servedEvents [.server, .stopper, .conn 0]
    [.written 0 (-125), .closed (.conn 0), .closed .server,
      .closed .stopper]

theorem serve_until_stop_servedLifetime :
    Lifecycle helloServer (new bodilessRequests.llhttp ())
      servedLifetime := by
  apply serve_until_stop
  apply along_lifetime rfl rfl
  · have possible :=
      Runs.along_append.mpr
        ⟨Loop.possible_stoppedEvents, Loop.possible_closedEvents⟩
    exact possible
  · simp [Loop.servedEvents]
  · decide +kernel

end HttpServer

end PlusWeb
