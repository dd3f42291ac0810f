import PlusWeb.ParserFraming

/-!
# What a call of the parser delivers

The recording handler shows which requests one call of `execute` delivers.
Any other handler is called with exactly these, in order, up to the first
call that throws; an exception takes the place of whatever the parser would
have ended with.
-/

namespace PlusWeb

variable {J : Type} [Json J] {τ : Type} {llhttp : Llhttp}

/-- One call of a handler after another, up to the first that throws. -/
def RequestHandler.each (handler : RequestHandler J τ) :
    List (HttpRequest J × Bool) → Action CxxException τ
  | [] => Action.skip
  | (request, keepAlive) :: rest =>
      Action.seq (handler request keepAlive) (handler.each rest)

omit [Json J] in
/-- What each call of a handler keeps, the calls keep one after another. -/
theorem RequestHandler.preserves_each
    {handler : RequestHandler J τ} {invariant : τ → Prop}
    (keeps : ∀ request keepAlive,
      (handler request keepAlive).Preserves invariant)
    (deliveries : List (HttpRequest J × Bool)) :
    (handler.each deliveries).Preserves invariant := by
  induction deliveries with
  | nil => exact Action.preserves_skip invariant
  | cons delivery deliveries induction =>
      rcases delivery with ⟨request, keepAlive⟩
      exact Action.preserves_seq (keeps request keepAlive) induction

omit [Json J] in
/-- The calls of a handler return, if each does. -/
theorem RequestHandler.each_returned
    {handler : RequestHandler J τ} {deliveries : List (HttpRequest J × Bool)}
    (returns : ∀ delivery ∈ deliveries, ∀ outer,
      (handler delivery.1 delivery.2 outer).1 = .returned)
    (outer : τ) : (handler.each deliveries outer).1 = .returned := by
  induction deliveries generalizing outer with
  | nil => rfl
  | cons delivery deliveries induction =>
      rw [List.forall_mem_cons] at returns
      have first := returns.1 outer
      rcases called : handler delivery.1 delivery.2 outer with
        ⟨outcome, middle⟩
      rw [called] at first
      obtain rfl : outcome = .returned := first
      simp only [each, Action.seq, called]
      exact induction returns.2 middle

namespace HttpParser

/--
The callbacks of one call, with the recording handler: the `Impl` or why
it stopped, and the requests delivered.
-/
def reads
    (J : Type) [Json J] (parser : HttpParser llhttp) (data : StdString) :
    Except Stop Impl × List (HttpRequest J × Bool) :=
  ((llhttp.execute parser.state data).callbacks.foldlM (Impl.on record)
    parser.impl).run []

end HttpParser

namespace Impl

theorem onMessageComplete_run
    (handler : RequestHandler J τ) {impl : Impl} {info : MessageInfo}
    {request : HttpRequest J} (built : impl.request info = .ok request)
    (outer : τ) :
    (impl.onMessageComplete handler info).run outer =
      match handler request info.shouldKeepAlive outer with
      | (.returned, outer) => (.ok impl.resetRequest, outer)
      | (.threw exception, outer) =>
          (.error (caught (ascii "handler threw: ") exception), outer) := by
  have called :
      (((modifyGet (handler request info.shouldKeepAlive) :
          StateM τ (Outcome CxxException)) :
            ParserM τ (Outcome CxxException))).run outer =
        (.ok (handler request info.shouldKeepAlive outer).1,
          (handler request info.shouldKeepAlive outer).2) := rfl
  simp only [onMessageComplete, built, ParserM.run_bind, called]
  cases handler request info.shouldKeepAlive outer with
  | mk outcome after => cases outcome <;> rfl

/-- A handler works on what the recording handler records. -/
theorem foldlM_each
    (handler : RequestHandler J τ) (callbacks : List Callback) (impl : Impl)
    (outer : τ) :
    (callbacks.foldlM (Impl.on handler) impl).run outer =
      let (result, delivered) :=
        (callbacks.foldlM (Impl.on record) impl).run
          ([] : List (HttpRequest J × Bool))
      match handler.each delivered outer with
      | (.returned, outer) => (result, outer)
      | (.threw exception, outer) =>
          (.error (caught (ascii "handler threw: ") exception), outer) := by
  induction callbacks generalizing impl outer with
  | nil => rfl
  | cons callback callbacks induction =>
      simp only [List.foldlM_cons, ParserM.run_bind]
      by_cases ends : callback.Ends
      · cases callback with
        | messageComplete info =>
            simp only [Impl.on]
            cases built : (impl.request info :
              Except CxxException (HttpRequest J)) with
            | error exception =>
                simp only [onMessageComplete, built]
                rfl
            | ok request =>
                have recorded :=
                  foldlM_record (J := J) callbacks impl.resetRequest
                    [(request, info.shouldKeepAlive)] []
                simp only [List.append_nil] at recorded
                simp only [onMessageComplete_run _ built, record,
                  Action.modify, List.nil_append, recorded,
                  RequestHandler.each, List.singleton_append, Action.seq]
                cases handler request info.shouldKeepAlive outer with
                | mk outcome after =>
                cases outcome with
                | returned => exact induction impl.resetRequest after
                | threw exception => rfl
        | _ => exact ends.elim
      · simp only [on_quiet ends]
        cases impl.quietly callback with
        | error stop => rfl
        | ok middle => exact induction middle outer

/--
A delivery comes from the end of a message that the callbacks before it
have led to, and what is delivered behind it from the callbacks behind
that.
-/
theorem foldlM_record_split
    {callbacks : List Callback} {impl : Impl} {result : Except Stop Impl}
    {front back : List (HttpRequest J × Bool)} {request : HttpRequest J}
    {keepAlive : Bool}
    (delivered :
      (callbacks.foldlM (Impl.on record) impl).run [] =
        (result, front ++ (request, keepAlive) :: back)) :
    ∃ early info late before,
      callbacks = early ++ .messageComplete info :: late ∧
        info.shouldKeepAlive = keepAlive ∧
        (early.foldlM (Impl.on record) impl).run [] = (.ok before, front) ∧
        before.request info = .ok request ∧
        (late.foldlM (Impl.on record) before.resetRequest).run [] =
          (result, back) := by
  induction callbacks generalizing impl front with
  | nil =>
      have nothing := (Prod.mk.inj delivered).2
      simp at nothing
  | cons callback callbacks induction =>
      rw [List.foldlM_cons, ParserM.run_bind] at delivered
      by_cases ends : callback.Ends
      · cases callback with
        | messageComplete info =>
            simp only [Impl.on] at delivered
            cases built : (impl.request info :
              Except CxxException (HttpRequest J)) with
            | error exception =>
                simp only [onMessageComplete, built] at delivered
                have nothing := (Prod.mk.inj delivered).2
                simp at nothing
            | ok built' =>
                have recorded (callbacks : List Callback) :
                    (callbacks.foldlM (Impl.on record)
                        impl.resetRequest).run
                        [(built', info.shouldKeepAlive)] = _ :=
                  foldlM_record (J := J) callbacks impl.resetRequest
                    [(built', info.shouldKeepAlive)] []
                have ended :
                    (impl.onMessageComplete record info).run
                        ([] : List (HttpRequest J × Bool)) =
                      (.ok impl.resetRequest,
                        [(built', info.shouldKeepAlive)]) :=
                  onMessageComplete_run record built []
                rw [ended] at delivered
                dsimp only at delivered
                rw [recorded] at delivered
                rcases Prod.mk.inj delivered with ⟨same, split⟩
                cases front with
                | nil =>
                    rcases List.cons.inj split with ⟨first, rest⟩
                    rcases Prod.mk.inj first with ⟨rfl, flag⟩
                    exact
                      ⟨[], info, callbacks, impl, rfl, flag, rfl, built,
                        Prod.ext same rest⟩
                | cons first front =>
                    rcases List.cons.inj split with ⟨own, others⟩
                    obtain
                      ⟨early, info', late, before, rfl, flag, led, last,
                        later⟩ :=
                      induction (Prod.ext same others)
                    refine
                      ⟨.messageComplete info :: early, info', late, before,
                        rfl, flag, ?_, last, later⟩
                    rw [List.foldlM_cons, ParserM.run_bind]
                    simp only [Impl.on]
                    rw [ended]
                    dsimp only
                    rw [recorded, led, own]
                    rfl
        | _ => exact ends.elim
      · rw [on_quiet ends] at delivered
        cases quiet : impl.quietly callback with
        | error stop =>
            rw [quiet] at delivered
            have nothing := (Prod.mk.inj delivered).2
            simp at nothing
        | ok middle =>
            rw [quiet] at delivered
            obtain
              ⟨early, info, late, before, rfl, same, led, last, later⟩ :=
              induction delivered
            refine
              ⟨callback :: early, info, late, before, rfl, same, ?_, last,
                later⟩
            rw [List.foldlM_cons, ParserM.run_bind, on_quiet ends, quiet]
            exact led

end Impl

/-! ## What the callbacks throw -/

/-- What the program reads of a body throws `std::exception`s only. -/
theorem Impl.exception_of_request
    {impl : Impl} {info : MessageInfo} {exception : CxxException}
    (failed :
      (impl.request info : Except CxxException (HttpRequest J)) =
        .error exception) :
    ∃ what, exception = .stdException what := by
  have read :
      (impl.requestBody : Except CxxException (StdMap × HttpBody J)) =
        .error exception := by
    unfold request at failed
    cases body : (impl.requestBody :
        Except CxxException (StdMap × HttpBody J)) with
    | ok both => simp [body, bind, Except.bind, pure, Except.pure] at failed
    | error thrown =>
        rw [body] at failed
        exact congrArg Except.error (Except.error.inj failed)
  unfold requestBody at read
  split at read
  · cases read
  · dsimp only at read
    split at read
    · split at read
      · next what _ => exact ⟨what, (Except.error.inj read).symm⟩
      · next j _ =>
        unfold HttpBody.setJson at read
        dsimp only at read
        split at read
        · cases read
        · next thrown =>
          split at thrown
          · cases (Prod.mk.inj thrown).1
          · next what _ =>
            rcases Prod.mk.inj thrown with ⟨same, -⟩
            obtain rfl := Outcome.threw.inj same
            exact ⟨what, (Except.error.inj read).symm⟩
    · cases read

/-- A callback that ends no message fails for the budget only. -/
theorem Impl.quietly_returns
    (impl : Impl) (callback : Callback) (exception : CxxException) :
    impl.quietly callback ≠ .error (.escaped exception) := by
  have charged (absorb : StdString → Impl → Impl) (span : StdString) :
      quietly.charged impl absorb span ≠ .error (.escaped exception) := by
    unfold quietly.charged
    split <;> simp [overBudget]
  cases callback with
  | url span => exact charged _ span
  | headerField span => exact charged _ span
  | headerValue span => exact charged _ span
  | headersComplete => simp [quietly]
  | body span => simp [quietly]
  | messageComplete info => simp [quietly]

/-- No exception comes from the callbacks themselves. -/
theorem Impl.foldlM_record_returns
    (callbacks : List Callback) (impl : Impl)
    (log : List (HttpRequest J × Bool)) (exception : CxxException) :
    ((callbacks.foldlM (Impl.on record) impl).run log).1 ≠
      .error (.escaped exception) := by
  induction callbacks generalizing impl log with
  | nil => simp
  | cons callback callbacks induction =>
      rw [List.foldlM_cons, ParserM.run_bind]
      by_cases ends : callback.Ends
      · cases callback with
        | messageComplete info =>
            simp only [Impl.on]
            cases built : (impl.request info :
              Except CxxException (HttpRequest J)) with
            | error thrown =>
                rcases exception_of_request built with ⟨what, rfl⟩
                simp only [onMessageComplete, built]
                intro escaped
                cases escaped
            | ok request =>
                rw [onMessageComplete_run record built]
                exact induction _ _
        | _ => exact ends.elim
      · rw [on_quiet ends]
        cases quiet : impl.quietly callback with
        | error stop =>
            have returns := impl.quietly_returns callback exception
            rwa [quiet] at returns
        | ok middle => exact induction middle log

namespace HttpParser

/-- The requests one call delivers. -/
def delivers
    (J : Type) [Json J] (parser : HttpParser llhttp) (data : StdString) :
    List (HttpRequest J × Bool) :=
  (parser.reads J data).2

/-- How one call ends, from what it read. -/
def ending
    (parser : HttpParser llhttp) (data : StdString) :
    Except Stop Impl → Executed llhttp
  | .ok impl =>
      let result := llhttp.execute parser.state data
      if result.errno = .ok then .accepted ⟨result.next, impl⟩
      else .failed 400 (result.errno.name ++ ascii ": " ++ result.reason)
  | .error (.failed failure headerLimitHit) =>
      .failed (if headerLimitHit then 431 else 400) failure
  | .error (.escaped exception) => .escaped exception

/--
A delivered request that does not keep the connection alive is the last
of its call, and neither the `Impl` nor llhttp has more to complain of than
an upgrade or what follows.
-/
theorem reads_of_closing
    (closes : llhttp.Closes) {parser : HttpParser llhttp} {data : StdString}
    {front back : List (HttpRequest J × Bool)} {request : HttpRequest J}
    (delivered :
      parser.delivers J data = front ++ (request, false) :: back) :
    back = [] ∧ (∃ impl, (parser.reads J data).1 = .ok impl) ∧
      ((llhttp.execute parser.state data).errno = .ok ∨
        (llhttp.execute parser.state data).errno = .pausedUpgrade ∨
        (llhttp.execute parser.state data).errno = .closedConnection) := by
  obtain ⟨early, info, late, before, callbacks, closing, -, -, later⟩ :=
    Impl.foldlM_record_split
      (Prod.ext rfl delivered :
        parser.reads J data =
          ((parser.reads J data).1, front ++ (request, false) :: back))
  rcases closes _ _ _ _ _ callbacks closing with ⟨rfl, errno⟩
  rcases Prod.mk.inj later with ⟨result, rfl⟩
  exact ⟨rfl, ⟨_, result.symm⟩, errno⟩

/--
One call of `execute`: the handler works on what is delivered, and the
call ends as what was read says unless the handler throws.
-/
theorem execute_eq
    (parser : HttpParser llhttp) (handler : RequestHandler J τ)
    (data : StdString) (outer : τ) :
    parser.execute handler data outer =
      match handler.each (parser.delivers J data) outer with
      | (.returned, outer) =>
          (parser.ending data (parser.reads J data).1, outer)
      | (.threw exception, outer) =>
          (parser.ending data
            (.error (Impl.caught (ascii "handler threw: ") exception)),
            outer) := by
  have called :=
    Impl.foldlM_each handler (llhttp.execute parser.state data).callbacks
      parser.impl outer
  simp only [execute, called, delivers, reads]
  cases (((llhttp.execute parser.state data).callbacks.foldlM
      (Impl.on record) parser.impl).run
        ([] : List (HttpRequest J × Bool))) with
  | mk result delivered =>
  dsimp only
  cases handler.each delivered outer with
  | mk outcome after =>
  cases outcome with
  | threw exception => cases exception <;> rfl
  | returned =>
      cases result with
      | error stop => cases stop <;> rfl
      | ok impl =>
          simp only [ending]
          split_ifs <;> rfl

/-- What the handler works on is left as its calls leave it. -/
theorem execute_snd
    (parser : HttpParser llhttp) (handler : RequestHandler J τ)
    (data : StdString) (outer : τ) :
    (parser.execute handler data outer).2 =
      (handler.each (parser.delivers J data) outer).2 := by
  rw [execute_eq]
  split <;> simp_all

/-- A call that is accepted had no handler throw. -/
theorem returned_of_accepted
    {parser next : HttpParser llhttp} {handler : RequestHandler J τ}
    {data : StdString} {outer : τ}
    (accepted : (parser.execute handler data outer).1 = .accepted next) :
    (handler.each (parser.delivers J data) outer).1 = .returned := by
  rw [execute_eq] at accepted
  split at accepted
  case h_1 after returned => rw [returned]
  case h_2 exception after threw =>
    cases exception <;> cases accepted

end HttpParser

end PlusWeb
