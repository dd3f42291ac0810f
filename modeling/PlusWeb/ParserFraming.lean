import PlusWeb.ByteMachine

/-!
# The parser does not see how a stream is cut

llhttp reports the text of a request in spans.  Cutting the input cuts spans
into fragments and changes nothing else; this is assumed of llhttp, and so is
that after a message that keeps the connection alive it treats what follows
as a new parser does.

The callbacks of `Impl` take two fragments of a span to the same result as
the whole span, the header budget included, and the end of a message restores
the state of a new `Impl`.  So the requests delivered do not depend on the
cuts, and each message of a pipeline is delivered as if it were alone.
-/

namespace PlusWeb

open Fragments

variable {J : Type} [Json J] {τ : Type} {llhttp : Llhttp}

/-! ## Fragments and the callbacks -/

namespace Impl

/-- Charge a span and take it in. -/
def takeIn
    (absorb : StdString → Impl → Impl) (span : StdString) (impl : Impl) :
    ParserM τ Impl :=
  impl.charge span.length >>= fun impl => pure (absorb span impl)

/--
Taking in two fragments is taking in the whole span, and exceeds the
budget in the same cases.
-/
theorem takeIn_takeIn
    (absorb : StdString → Impl → Impl)
    (budget : ∀ span impl,
      (absorb span impl).maxHeaderBytes = impl.maxHeaderBytes)
    (spent : ∀ span impl,
      (absorb span impl).headerBytes = impl.headerBytes)
    (fragments : ∀ front back (impl : Impl) bytes bytes',
      absorb back
          ((absorb front (impl.setHeaderBytes bytes)).setHeaderBytes
            bytes') =
        absorb (front ++ back) (impl.setHeaderBytes bytes'))
    (front back : StdString) (impl : Impl) :
    (takeIn absorb front impl >>= takeIn absorb back : ParserM τ Impl) =
      takeIn absorb (front ++ back) impl := by
  have length : (front ++ back).length = front.length + back.length :=
    List.length_append
  by_cases first : impl.headerBytes + front.length > impl.maxHeaderBytes
  · have both :
        impl.headerBytes + (front.length + back.length) >
          impl.maxHeaderBytes := by omega
    simp [takeIn, charge, length, first, both]
  · by_cases both :
        impl.headerBytes + (front.length + back.length) > impl.maxHeaderBytes
    · have second :
          impl.headerBytes + front.length + back.length >
            impl.maxHeaderBytes := by omega
      simp [takeIn, charge, length, first, second, both, budget, spent]
    · have second :
          ¬ impl.headerBytes + front.length + back.length >
            impl.maxHeaderBytes := by omega
      simp [takeIn, charge, length, first, both, budget, spent, fragments,
        Nat.add_assoc]

/-- What `onUrl` takes in. -/
def absorbUrl (span : StdString) (impl : Impl) : Impl :=
  { impl with target := impl.target ++ span }

/-- What `onHeaderField` takes in. -/
def absorbField (span : StdString) (impl : Impl) : Impl :=
  let impl :=
    if impl.readingValue then { impl.commitHeader with readingValue := false }
    else impl
  { impl with field := impl.field ++ span }

/-- What `onHeaderValue` takes in. -/
def absorbValue (span : StdString) (impl : Impl) : Impl :=
  { impl with readingValue := true, value := impl.value ++ span }

theorem onUrl_eq (impl : Impl) (span : StdString) :
    (impl.onUrl span : ParserM τ Impl) = takeIn absorbUrl span impl := rfl

theorem onHeaderField_eq (impl : Impl) (span : StdString) :
    (impl.onHeaderField span : ParserM τ Impl) =
      takeIn absorbField span impl := rfl

theorem onHeaderValue_eq (impl : Impl) (span : StdString) :
    (impl.onHeaderValue span : ParserM τ Impl) =
      takeIn absorbValue span impl := rfl

theorem absorbField_budget (span : StdString) (impl : Impl) :
    (absorbField span impl).maxHeaderBytes = impl.maxHeaderBytes := by
  cases reading : impl.readingValue <;>
    simp [absorbField, reading, commitHeader]

theorem absorbField_spent (span : StdString) (impl : Impl) :
    (absorbField span impl).headerBytes = impl.headerBytes := by
  cases reading : impl.readingValue <;>
    simp [absorbField, reading, commitHeader]

/-- The callbacks take two fragments like the whole span. -/
theorem on_join
    (handler : RequestHandler J τ)
    {first second both : Callback}
    (joined : Callback.join first second = some both) (impl : Impl) :
    (impl.on handler first >>= fun impl => impl.on handler second) =
      impl.on handler both := by
  cases first <;> cases second <;> simp [Callback.join] at joined <;>
    subst joined
  case url.url front back =>
    refine
      takeIn_takeIn absorbUrl (fun _ _ => rfl) (fun _ _ => rfl)
        ?_ front back impl
    intro front back impl bytes bytes'
    simp [absorbUrl, setHeaderBytes]
  case headerField.headerField front back =>
    refine
      takeIn_takeIn absorbField absorbField_budget absorbField_spent ?_
        front back impl
    intro front back impl bytes bytes'
    cases reading : impl.readingValue <;>
      simp [absorbField, reading, commitHeader, setHeaderBytes]
  case headerValue.headerValue front back =>
    refine
      takeIn_takeIn absorbValue (fun _ _ => rfl) (fun _ _ => rfl)
        ?_ front back impl
    intro front back impl bytes bytes'
    simp [absorbValue, setHeaderBytes]
  case body.body front back => simp [on, onBody]

end Impl

/-! ## Runs of callbacks -/

namespace ParserM

omit [Json J] in
theorem run_bind
    {α β : Type} (first : ParserM τ α) (second : α → ParserM τ β)
    (outer : τ) :
    (first >>= second).run outer =
      match first.run outer with
      | (.ok value, outer) => (second value).run outer
      | (.error stop, outer) => (.error stop, outer) := by
  change ExceptT.bindCont second (first.run outer).1 (first.run outer).2 = _
  cases first.run outer with
  | mk result outer => cases result <;> rfl

omit [Json J] in
@[simp]
theorem run_pure {α : Type} (value : α) (outer : τ) :
    (pure value : ParserM τ α).run outer = (.ok value, outer) := rfl

omit [Json J] in
@[simp]
theorem run_throw {α : Type} (stop : Stop) (outer : τ) :
    (throw stop : ParserM τ α).run outer = (.error stop, outer) := rfl

end ParserM

/--
How a sequence of `execute` calls ends: not at all, with a status, or
with an exception.
-/
def Executed.verdict :
    Executed llhttp → Option (Except CxxException Nat)
  | .accepted _ => none
  | .failed status _ => some (.ok status)
  | .escaped exception => some (.error exception)

/--
The verdict and the outer state, from the callbacks and the error code
alone.
-/
def judge
    (handler : RequestHandler J τ) (impl : Impl)
    (fed : List Callback × Errno) (outer : τ) :
    Option (Except CxxException Nat) × τ :=
  match (fed.1.foldlM (Impl.on handler) impl).run outer with
  | (.ok _, outer) => (if fed.2 = .ok then none else some (.ok 400), outer)
  | (.error (.failed _ headerLimitHit), outer) =>
      (some (.ok (if headerLimitHit then 431 else 400)), outer)
  | (.error (.escaped exception), outer) =>
      (some (.error exception), outer)

/-- Runs of llhttp that differ only in the cuts of spans are judged alike. -/
theorem judge_sameSpans
    (handler : RequestHandler J τ) (impl : Impl)
    {first second : List Callback × Errno}
    (same : SameSpans first second) (outer : τ) :
    judge handler impl first outer = judge handler impl second outer := by
  have respects {front back both : Callback}
      (joined : Callback.join front back = some both) (impl : Impl) :=
    Impl.on_join handler joined impl
  unfold judge
  rw [← foldlM_merge respects first.1, same.1, foldlM_merge respects,
    same.2]

/--
A sequence of `execute` calls is judged by what llhttp reports over all
of them.
-/
theorem feed_judge
    (handler : RequestHandler J τ) (parser : HttpParser llhttp)
    (chunks : List StdString) (outer : τ) :
    (parser.feed handler chunks outer).map Executed.verdict id =
      judge handler parser.impl (llhttp.feed parser.state chunks) outer := by
  induction chunks generalizing parser outer with
  | nil => rfl
  | cons chunk chunks induction =>
      simp only [HttpParser.feed, HttpParser.execute, Llhttp.feed]
      cases ran :
          ((llhttp.execute parser.state chunk).callbacks.foldlM
            (Impl.on handler) parser.impl).run outer with
      | mk result after =>
      cases result with
      | ok impl =>
          by_cases fine : (llhttp.execute parser.state chunk).errno = .ok
          · simp only [fine, ↓reduceIte]
            rw [induction]
            simp only [judge, List.foldlM_append, ParserM.run_bind, ran]
          · simp [fine, judge, ran, Executed.verdict]
      | error stop =>
          by_cases fine : (llhttp.execute parser.state chunk).errno = .ok
          · have stopped (later : List Callback) :
                (((llhttp.execute parser.state chunk).callbacks ++
                    later).foldlM (Impl.on handler) parser.impl).run outer =
                  (.error stop, after) := by
              simp only [List.foldlM_append, ParserM.run_bind, ran]
            cases stop <;>
              simp only [fine, ↓reduceIte, judge, stopped] <;> rfl
          · cases stop <;>
              simp only [fine, ↓reduceIte, judge, ran] <;> rfl

/-- The outcome of a fresh parser does not depend on the cuts. -/
theorem feed_independent
    (assumed : llhttp.Assumed) (handler : RequestHandler J τ)
    (maxHeaderBytes : Nat) {chunks chunks' : List StdString}
    (same : chunks.flatten = chunks'.flatten) (outer : τ) :
    ((HttpParser.new llhttp maxHeaderBytes).feed handler chunks outer).map
        Executed.verdict id =
      ((HttpParser.new llhttp maxHeaderBytes).feed handler chunks'
        outer).map Executed.verdict id := by
  rw [feed_judge, feed_judge]
  exact judge_sameSpans handler _ (assumed.cuts chunks chunks' same) outer

/-! ## One message after another -/

/-- The handler that records what it is given. -/
def record :
    RequestHandler J (List (HttpRequest J × Bool)) :=
  fun request keepAlive => Action.modify (· ++ [(request, keepAlive)])

/--
The requests a fresh parser delivers for a stream, with their keep-alive
flags.
-/
def deliveries
    (J : Type) [Json J] (llhttp : Llhttp) (maxHeaderBytes : Nat)
    (chunks : List StdString) : List (HttpRequest J × Bool) :=
  ((HttpParser.new llhttp maxHeaderBytes).feed record chunks []).2

namespace Impl

omit [Json J] in
theorem charge_run (impl : Impl) (len : Nat) (outer : τ) :
    (impl.charge len).run outer =
      (if impl.headerBytes + len > impl.maxHeaderBytes then
          .error (overBudget impl.maxHeaderBytes)
        else .ok (impl.setHeaderBytes (impl.headerBytes + len)), outer) := by
  by_cases exceeds : impl.headerBytes + len > impl.maxHeaderBytes
  · simp [charge, exceeds]
  · simp [charge, exceeds]

omit [Json J] in
theorem takeIn_run
    (absorb : StdString → Impl → Impl) (span : StdString) (impl : Impl)
    (outer : τ) :
    (takeIn absorb span impl).run outer =
      (if impl.headerBytes + span.length > impl.maxHeaderBytes then
          .error (overBudget impl.maxHeaderBytes)
        else
          .ok
            (absorb span
              (impl.setHeaderBytes (impl.headerBytes + span.length))),
        outer) := by
  rw [takeIn, ParserM.run_bind, charge_run]
  split_ifs <;> rfl

/--
What a callback that ends no message does, whatever the handler and its
state are.
-/
def quietly (impl : Impl) : Callback → Except Stop Impl
  | .url span => charged absorbUrl span
  | .headerField span => charged absorbField span
  | .headerValue span => charged absorbValue span
  | .headersComplete => .ok impl.commitHeader
  | .body span => .ok { impl with body := impl.body ++ span }
  | .messageComplete _ => .ok impl
where
  charged (absorb : StdString → Impl → Impl) (span : StdString) :
      Except Stop Impl :=
    if impl.headerBytes + span.length > impl.maxHeaderBytes then
      .error (overBudget impl.maxHeaderBytes)
    else
      .ok
        (absorb span (impl.setHeaderBytes (impl.headerBytes + span.length)))

theorem on_quiet
    {callback : Callback} (quiet : ¬ callback.Ends)
    (handler : RequestHandler J τ) (impl : Impl) (outer : τ) :
    (impl.on handler callback).run outer = (impl.quietly callback, outer) := by
  cases callback with
  | messageComplete info => exact absurd trivial quiet
  | headersComplete => rfl
  | body span => rfl
  | url span => rw [on, onUrl_eq, takeIn_run]; rfl
  | headerField span => rw [on, onHeaderField_eq, takeIn_run]; rfl
  | headerValue span => rw [on, onHeaderValue_eq, takeIn_run]; rfl

/-- The limit of the budget never changes. -/
theorem quietly_budget
    {impl after : Impl} {callback : Callback}
    (done : impl.quietly callback = .ok after) :
    after.maxHeaderBytes = impl.maxHeaderBytes := by
  have charged
      {absorb : StdString → Impl → Impl} {span : StdString}
      (budget : ∀ impl,
        (absorb span impl).maxHeaderBytes = impl.maxHeaderBytes)
      (done : quietly.charged impl absorb span = .ok after) :
      after.maxHeaderBytes = impl.maxHeaderBytes := by
    unfold quietly.charged at done
    split_ifs at done
    obtain rfl := Except.ok.inj done
    rw [budget, setHeaderBytes_maxHeaderBytes]
  cases callback with
  | url span => exact charged (fun _ => rfl) done
  | headerField span => exact charged (absorbField_budget span) done
  | headerValue span => exact charged (fun _ => rfl) done
  | headersComplete => obtain rfl := Except.ok.inj done; rfl
  | body span => obtain rfl := Except.ok.inj done; rfl
  | messageComplete info => obtain rfl := Except.ok.inj done; rfl

/-- Callbacks that end no message deliver nothing. -/
theorem foldlM_quiet
    {callbacks : List Callback}
    (quiet : ∀ callback ∈ callbacks, ¬ callback.Ends)
    (handler : RequestHandler J τ) (impl : Impl) (outer : τ) :
    ((callbacks.foldlM (Impl.on handler) impl).run outer).2 = outer ∧
      ∀ after,
        ((callbacks.foldlM (Impl.on handler) impl).run outer).1 =
            .ok after →
          after.maxHeaderBytes = impl.maxHeaderBytes := by
  induction callbacks generalizing impl with
  | nil =>
      refine ⟨rfl, fun after equal => ?_⟩
      obtain rfl := Except.ok.inj equal
      rfl
  | cons callback callbacks induction =>
      rw [List.foldlM_cons, ParserM.run_bind,
        on_quiet (quiet callback (List.mem_cons_self ..))]
      cases done : impl.quietly callback with
      | error stop => simp
      | ok middle =>
          obtain ⟨rest, later⟩ :=
            induction
              (fun next member =>
                quiet next (List.mem_cons_of_mem _ member)) middle
          exact
            ⟨rest, fun after equal =>
              (later after equal).trans (quietly_budget done)⟩

/--
The end of a message, with the recording handler: one delivery and a new
`Impl`, or a failure before the delivery.
-/
theorem onMessageComplete_record (impl : Impl) (info : MessageInfo) :
    (∃ request, ∀ log : List (HttpRequest J × Bool),
        (impl.onMessageComplete record info).run log =
          (.ok (Impl.new impl.maxHeaderBytes),
            log ++ [(request, info.shouldKeepAlive)])) ∨
      ∃ stop, ∀ log : List (HttpRequest J × Bool),
        (impl.onMessageComplete record info).run log = (.error stop, log) := by
  unfold onMessageComplete
  cases (impl.request info : Except CxxException (HttpRequest J)) with
  | error exception => exact Or.inr ⟨_, fun _ => rfl⟩
  | ok request => exact Or.inl ⟨request, fun _ => rfl⟩

/-- A message, with the recording handler. -/
theorem message_record
    {front : List Callback} (quiet : ∀ callback ∈ front, ¬ callback.Ends)
    (info : MessageInfo) (maxHeaderBytes : Nat) (log : List (HttpRequest J × Bool)) :
    (∃ request,
        ((front ++ [Callback.messageComplete info]).foldlM (Impl.on record)
            (Impl.new maxHeaderBytes)).run log =
          (.ok (Impl.new maxHeaderBytes),
            log ++ [(request, info.shouldKeepAlive)])) ∨
      ∃ stop,
        ((front ++ [Callback.messageComplete info]).foldlM (Impl.on record)
            (Impl.new maxHeaderBytes)).run log =
          (.error stop, log) := by
  obtain ⟨same, budget⟩ :=
    foldlM_quiet quiet record (Impl.new maxHeaderBytes) log
  rw [List.foldlM_append, ParserM.run_bind]
  cases ran :
      (front.foldlM (Impl.on record) (Impl.new maxHeaderBytes)).run log with
  | mk result after =>
  rw [ran] at same budget
  obtain rfl : after = log := same
  cases result with
  | error stop => exact Or.inr ⟨stop, rfl⟩
  | ok impl =>
      have limit : impl.maxHeaderBytes = maxHeaderBytes := budget impl rfl
      have ended := onMessageComplete_record (J := J) impl info
      rw [limit] at ended
      simp only [List.foldlM_cons, ParserM.run_bind, Impl.on]
      rcases ended with ⟨request, delivered⟩ | ⟨stop, failed⟩
      · refine Or.inl ⟨request, ?_⟩
        rw [delivered]
        rfl
      · refine Or.inr ⟨stop, ?_⟩
        rw [failed]

/-- Recording goes on from whatever was recorded before. -/
theorem foldlM_record
    (callbacks : List Callback) (impl : Impl)
    (log more : List (HttpRequest J × Bool)) :
    (callbacks.foldlM (Impl.on record) impl).run (log ++ more) =
      (((callbacks.foldlM (Impl.on record) impl).run more).1,
        log ++ ((callbacks.foldlM (Impl.on record) impl).run more).2) := by
  induction callbacks generalizing impl more with
  | nil => rfl
  | cons callback callbacks induction =>
      simp only [List.foldlM_cons, ParserM.run_bind]
      by_cases ends : callback.Ends
      · cases callback with
        | messageComplete info =>
            simp only [Impl.on]
            rcases onMessageComplete_record (J := J) impl info with
              ⟨request, delivered⟩ | ⟨stop, failed⟩
            · simp only [delivered, List.append_assoc, induction]
            · simp only [failed]
        | _ => exact ends.elim
      · simp only [on_quiet ends]
        cases impl.quietly callback with
        | error stop => rfl
        | ok middle => exact induction middle more

end Impl

/-- The deliveries of a stream, from what llhttp reports. -/
theorem deliveries_eq
    (maxHeaderBytes : Nat) (chunks : List StdString) :
    deliveries J llhttp maxHeaderBytes chunks =
      (judge record (Impl.new maxHeaderBytes)
        (llhttp.feed llhttp.init chunks) []).2 :=
  congrArg Prod.snd
    (feed_judge record (HttpParser.new llhttp maxHeaderBytes) chunks [])

/-- The deliveries of a fresh parser do not depend on the cuts. -/
theorem deliveries_independent
    (assumed : llhttp.Assumed) (maxHeaderBytes : Nat)
    {chunks chunks' : List StdString}
    (same : chunks.flatten = chunks'.flatten) :
    deliveries J llhttp maxHeaderBytes chunks =
      deliveries J llhttp maxHeaderBytes chunks' := by
  have whole :=
    congrArg Prod.snd
      (feed_independent (J := J) assumed record maxHeaderBytes same [])
  exact whole

theorem judge_record_append
    (impl : Impl) (fed : List Callback × Errno)
    (log : List (HttpRequest J × Bool)) :
    (judge record impl fed log).2 =
      log ++ (judge record impl fed ([] : List (HttpRequest J × Bool))).2 := by
  have whole := Impl.foldlM_record (J := J) fed.1 impl log []
  rw [List.append_nil] at whole
  unfold judge
  rw [whole]
  cases (fed.1.foldlM (Impl.on record) impl).run
      ([] : List (HttpRequest J × Bool)) with
  | mk result after =>
  cases result with
  | ok impl => rfl
  | error stop => cases stop <;> rfl

/--
A message in front of a stream: its delivery and those of a fresh parser
for the rest, or nothing at all.
-/
theorem deliveries_cons
    (assumed : llhttp.Assumed) (maxHeaderBytes : Nat)
    {message : StdString} (isMessage : llhttp.Message message true)
    (fine : (llhttp.execute llhttp.init message).errno = .ok)
    (chunks : List StdString) :
    (∃ delivery,
        deliveries J llhttp maxHeaderBytes [message] = [delivery] ∧
          deliveries J llhttp maxHeaderBytes (message :: chunks) =
            delivery :: deliveries J llhttp maxHeaderBytes chunks) ∨
      deliveries J llhttp maxHeaderBytes [message] = [] ∧
        deliveries J llhttp maxHeaderBytes (message :: chunks) = [] := by
  rcases isMessage.complete with ⟨front, info, callbacks, -, quiet⟩
  have ran :=
    Impl.message_record (J := J) quiet info maxHeaderBytes []
  rw [← callbacks] at ran
  have stream (chunks : List StdString) :
      deliveries J llhttp maxHeaderBytes (message :: chunks) =
        (judge record (Impl.new maxHeaderBytes)
          ((llhttp.execute llhttp.init message).callbacks ++
              (llhttp.feed (llhttp.execute llhttp.init message).next
                chunks).1,
            (llhttp.feed (llhttp.execute llhttp.init message).next
              chunks).2) ([] : List (HttpRequest J × Bool))).2 := by
    rw [deliveries_eq]
    simp only [Llhttp.feed, fine, ↓reduceIte]
  rcases ran with ⟨request, delivered⟩ | ⟨stop, failed⟩
  · have follow (chunks : List StdString) :
        deliveries J llhttp maxHeaderBytes (message :: chunks) =
          (request, info.shouldKeepAlive) ::
            deliveries J llhttp maxHeaderBytes chunks := by
      have resumed :
          deliveries J llhttp maxHeaderBytes (message :: chunks) =
            (judge record (Impl.new maxHeaderBytes)
              (llhttp.feed (llhttp.execute llhttp.init message).next chunks)
              [(request, info.shouldKeepAlive)]).2 := by
        rw [stream]
        simp only [judge, List.foldlM_append, ParserM.run_bind, delivered,
          List.nil_append]
      rw [resumed,
        judge_sameSpans record _ (assumed.restarts _ isMessage fine chunks),
        judge_record_append, ← deliveries_eq]
      rfl
    exact Or.inl ⟨_, follow [], follow chunks⟩
  · have nothing (chunks : List StdString) :
        deliveries J llhttp maxHeaderBytes (message :: chunks) = [] := by
      rw [stream]
      simp only [judge, List.foldlM_append, ParserM.run_bind, failed]
      cases stop <;> rfl
    exact Or.inr ⟨nothing [], nothing chunks⟩

/-- A message alone delivers at most one request. -/
theorem deliveries_message
    (maxHeaderBytes : Nat) {message : StdString} {keepAlive : Bool}
    (isMessage : llhttp.Message message keepAlive) :
    (∃ delivery,
        deliveries J llhttp maxHeaderBytes [message] = [delivery]) ∨
      deliveries J llhttp maxHeaderBytes [message] = [] := by
  rcases isMessage.complete with ⟨front, info, callbacks, -, quiet⟩
  have ran :=
    Impl.message_record (J := J) quiet info maxHeaderBytes []
  rw [← callbacks] at ran
  have reported :
      (llhttp.feed llhttp.init [message]).1 =
        (llhttp.execute llhttp.init message).callbacks := by
    simp only [Llhttp.feed, List.append_nil]
    split <;> rfl
  rw [deliveries_eq, judge, reported]
  rcases ran with ⟨request, delivered⟩ | ⟨stop, failed⟩
  · rw [delivered]
    exact Or.inl ⟨_, rfl⟩
  · rw [failed]
    cases stop <;> exact Or.inr rfl

/--
The deliveries of a pipeline are those of its messages alone, up to the
first message that is not accepted.
-/
theorem deliveries_messages
    (assumed : llhttp.Assumed) (maxHeaderBytes : Nat)
    {messages : List StdString} (pipeline : llhttp.Pipeline messages) :
    deliveries J llhttp maxHeaderBytes messages =
      ((messages.map fun message =>
          deliveries J llhttp maxHeaderBytes [message]).takeWhile
        (· ≠ [])).flatten := by
  induction messages with
  | nil => rfl
  | cons message messages induction =>
      cases messages with
      | nil =>
          rcases pipeline with ⟨keepAlive, isMessage⟩
          rcases deliveries_message (J := J) maxHeaderBytes isMessage with
            ⟨delivery, one⟩ | none
          · simp [one]
          · simp [none]
      | cons next rest =>
          rcases pipeline with ⟨isMessage, fine, later⟩
          rcases deliveries_cons (J := J) assumed maxHeaderBytes isMessage
              fine (next :: rest) with
            ⟨delivery, one, all⟩ | ⟨none, nothing⟩
          · rw [all, induction later]
            simp [one]
          · rw [nothing]
            simp [none]

/-- A delivery of a pipeline is the delivery of the message in its place. -/
theorem getElem?_takeWhile_flatten
    {α β : Type} {items : List α} {alone : α → List β}
    (atMostOne : ∀ item ∈ items, (∃ one, alone item = [one]) ∨ alone item = [])
    {position : Nat} {found : β}
    (at_ :
      ((items.map alone).takeWhile (· ≠ [])).flatten[position]? =
        some found) :
    ∃ item, items[position]? = some item ∧ alone item = [found] := by
  induction items generalizing position with
  | nil => simp at at_
  | cons item items induction =>
      rcases atMostOne item (List.mem_cons_self ..) with ⟨one, single⟩ | none
      · cases position with
        | zero =>
            simp [single] at at_
            exact ⟨item, rfl, by rw [single, at_]⟩
        | succ position =>
            simp [single] at at_
            exact
              induction
                (fun later member =>
                  atMostOne later (List.mem_cons_of_mem _ member))
                (by simpa using at_)
      · simp [none] at at_

/--
The parser does not see how a stream is cut, nor that messages are
pipelined.

For every way of cutting a stream the same requests are delivered, and with
any handler the state it leaves, and whether and with which status the parser
fails, are the same.  For a pipeline in any cut, the requests delivered are
those a fresh parser delivers for the messages alone, each in its place.
-/
theorem parser_framing
    (llhttp : Llhttp) (assumed : llhttp.Assumed) (maxHeaderBytes : Nat) :
    (∀ chunks chunks' : List StdString, chunks.flatten = chunks'.flatten →
        deliveries J llhttp maxHeaderBytes chunks =
            deliveries J llhttp maxHeaderBytes chunks' ∧
          ∀ (handler : RequestHandler J τ) (outer : τ),
            ((HttpParser.new llhttp maxHeaderBytes).feed handler chunks
                outer).map Executed.verdict id =
              ((HttpParser.new llhttp maxHeaderBytes).feed handler chunks'
                outer).map Executed.verdict id) ∧
      ∀ messages, llhttp.Pipeline messages →
        ∀ chunks : List StdString, chunks.flatten = messages.flatten →
          deliveries J llhttp maxHeaderBytes chunks =
              ((messages.map fun message =>
                  deliveries J llhttp maxHeaderBytes [message]).takeWhile
                (· ≠ [])).flatten ∧
            ∀ (position : Nat) (delivery : HttpRequest J × Bool),
              (deliveries J llhttp maxHeaderBytes chunks)[position]? =
                  some delivery →
                ∃ message, messages[position]? = some message ∧
                  deliveries J llhttp maxHeaderBytes [message] =
                    [delivery] := by
  refine
    ⟨fun chunks chunks' same =>
      ⟨deliveries_independent assumed maxHeaderBytes same,
        fun handler outer =>
          feed_independent assumed handler maxHeaderBytes same outer⟩, ?_⟩
  intro messages pipeline chunks same
  rw [deliveries_independent assumed maxHeaderBytes same,
    deliveries_messages assumed maxHeaderBytes pipeline]
  refine ⟨rfl, fun position delivery found => ?_⟩
  refine getElem?_takeWhile_flatten ?_ found
  intro message member
  rcases pipeline.message member with ⟨keepAlive, isMessage⟩
  exact deliveries_message maxHeaderBytes isMessage

/-- Two pipelined requests. -/
def pipelinedRequests : List StdString :=
  [ascii "GET /a HTTP/1.1\r\nHost: x\r\n\r\n",
    ascii "HEAD /b HTTP/1.0\r\n\r\n"]

theorem bodilessRequests_pipeline :
    bodilessRequests.llhttp.Pipeline pipelinedRequests := by
  refine ⟨?_, by decide +kernel, false, ?_⟩
  · exact
      { complete :=
          ⟨[.url (ascii "/a"), .headerField (ascii "Host"),
              .headerValue (ascii "x"), .headersComplete],
            ⟨ascii "GET", 1, 1, true⟩, by decide +kernel, rfl, by decide⟩
        whole := Llhttp.whole_of_take (by decide +kernel) }
  · exact
      { complete :=
          ⟨[.url (ascii "/b"), .headersComplete],
            ⟨ascii "HEAD", 1, 0, false⟩, by decide +kernel, rfl, by decide⟩
        whole := Llhttp.whole_of_take (by decide +kernel) }

/-- The same bytes, cut in the middle of everything. -/
theorem parser_framing_pipelinedRequests :
    deliveries FlatJson bodilessRequests.llhttp kMaxHeaderBytes
        [ascii "GET /a HT", ascii "TP/1.1\r\nHo", ascii "st: x\r\n\r",
          ascii "\nHEAD /b HTTP/1.0\r\n\r\n"] =
      ((pipelinedRequests.map fun message =>
          deliveries FlatJson bodilessRequests.llhttp kMaxHeaderBytes
            [message]).takeWhile (· ≠ [])).flatten :=
  ((parser_framing (τ := Unit) bodilessRequests.llhttp
    bodilessRequests_assumed kMaxHeaderBytes).2 pipelinedRequests
      bodilessRequests_pipeline _ (by decide +kernel)).1

end PlusWeb
