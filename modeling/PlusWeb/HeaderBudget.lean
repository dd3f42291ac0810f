import PlusWeb.ParserDeliveries

/-!
# The header budget

Each url, field and value span is charged before it is kept, and the charge
is taken back only when a message ends.  So what the parser holds of a
message never exceeds what was charged, and what was charged is exactly what
was received since the last message ended.

The callbacks are arbitrary: nothing is assumed of llhttp.  Lengths are
natural numbers, as long as the sums stay below the range of `size_t`.
-/

namespace PlusWeb

variable {J : Type} [Json J] {τ : Type} {llhttp : Llhttp}

/-! ## What is received and what is held -/

/-- The bytes of a callback that are charged. -/
def Callback.charge : Callback → Nat
  | .url span => span.length
  | .headerField span => span.length
  | .headerValue span => span.length
  | .headersComplete => 0
  | .body _ => 0
  | .messageComplete _ => 0

/-- The url, field and value bytes received since a message ended. -/
def messageBytes (callbacks : List Callback) : Nat :=
  callbacks.foldl
    (fun total callback =>
      if callback.Ends then 0 else total + callback.charge)
    0

@[simp]
theorem messageBytes_nil : messageBytes [] = 0 := rfl

theorem messageBytes_concat (past : List Callback) (callback : Callback) :
    messageBytes (past ++ [callback]) =
      if callback.Ends then 0 else messageBytes past + callback.charge := by
  rw [messageBytes, List.foldl_append]
  rfl

namespace Impl

/-- The bytes of a stored header. -/
def headerSize (header : StdString × StdString) : Nat :=
  header.1.length + header.2.length

/-- The bytes held in `target`, `field`, `value` and the stored headers. -/
def held (impl : Impl) : Nat :=
  impl.target.length + impl.field.length + impl.value.length +
    StdMap.sumEntries headerSize impl.headers

/--
The state after some callbacks is within the budget: it holds no more
than was charged, and was charged for what was received.
-/
structure Within (limit : Nat) (past : List Callback) (impl : Impl) :
    Prop where
  limit_eq : impl.maxHeaderBytes = limit
  held_le : impl.held ≤ impl.headerBytes
  bytes_le : impl.headerBytes ≤ limit
  received : impl.headerBytes = messageBytes past

omit [Json J] in
theorem within_new (limit : Nat) : (new limit).Within limit [] where
  limit_eq := rfl
  held_le := by simp [new, held, StdMap.sumEntries_empty]
  bytes_le := Nat.zero_le _
  received := rfl

omit [Json J] in
/-- Committing a header moves its bytes or drops them. -/
theorem commitHeader_held (impl : Impl) :
    impl.commitHeader.held ≤ impl.held ∧
      impl.commitHeader.field = [] ∧ impl.commitHeader.value = [] := by
  refine ⟨?_, rfl, rfl⟩
  have inserted :=
    StdMap.sumEntries_insert_le headerSize impl.headers impl.field impl.value
  simp only [headerSize] at inserted
  simp only [held, commitHeader, List.length_nil]
  split <;> omega

omit [Json J] in
/-- What takes a span in holds at most the span more. -/
theorem absorbUrl_held (span : StdString) (impl : Impl) :
    (absorbUrl span impl).held = impl.held + span.length := by
  simp only [absorbUrl, held, List.length_append]
  omega

omit [Json J] in
theorem absorbValue_held (span : StdString) (impl : Impl) :
    (absorbValue span impl).held = impl.held + span.length := by
  simp only [absorbValue, held, List.length_append]
  omega

omit [Json J] in
theorem absorbField_held (span : StdString) (impl : Impl) :
    (absorbField span impl).held ≤ impl.held + span.length := by
  have committed := impl.commitHeader_held.1
  cases reading : impl.readingValue with
  | false =>
      simp only [absorbField, reading, held, List.length_append]
      simp only [Bool.false_eq_true, ↓reduceIte]
      omega
  | true =>
      simp only [absorbField, reading, ↓reduceIte, held,
        List.length_append] at committed ⊢
      omega

omit [Json J] in
theorem setHeaderBytes_held (impl : Impl) (headerBytes : Nat) :
    (impl.setHeaderBytes headerBytes).held = impl.held := rfl

/-! ## One callback -/

/--
How a callback may end behind `past`: within the budget, or with the
limit hit exactly if it is exceeded.
-/
def Judged (limit : Nat) (past : List Callback) : Except Stop Impl → Prop
  | .ok impl => impl.Within limit past
  | .error (.failed _ headerLimitHit) =>
      headerLimitHit = true ↔ limit < messageBytes past
  | .error (.escaped _) => messageBytes past ≤ limit

omit [Json J] in
theorem judged_charged
    {limit : Nat} {past : List Callback} {impl : Impl}
    (within : impl.Within limit past)
    {absorb : StdString → Impl → Impl} {span : StdString}
    (budget : ∀ impl,
      (absorb span impl).maxHeaderBytes = impl.maxHeaderBytes)
    (spent : ∀ impl, (absorb span impl).headerBytes = impl.headerBytes)
    (holds : ∀ impl, (absorb span impl).held ≤ impl.held + span.length)
    {past' : List Callback}
    (received : messageBytes past' = messageBytes past + span.length) :
    Judged limit past' (quietly.charged impl absorb span) := by
  have counted := within.received
  have heldBefore := within.held_le
  unfold quietly.charged
  rw [within.limit_eq]
  split
  · next exceeds =>
    show true = true ↔ _
    refine iff_of_true rfl ?_
    omega
  · next inside =>
    constructor
    · rw [budget]
      exact within.limit_eq
    · rw [spent, setHeaderBytes_headerBytes]
      have after := holds (impl.setHeaderBytes (impl.headerBytes + span.length))
      rw [setHeaderBytes_held] at after
      omega
    · rw [spent, setHeaderBytes_headerBytes]
      omega
    · rw [spent, setHeaderBytes_headerBytes]
      omega

omit [Json J] in
/-- A callback that ends no message. -/
theorem judged_quietly
    {limit : Nat} {past : List Callback} {impl : Impl}
    (within : impl.Within limit past)
    {callback : Callback} (quiet : ¬ callback.Ends) :
    Judged limit (past ++ [callback]) (impl.quietly callback) := by
  have received : messageBytes (past ++ [callback]) =
      messageBytes past + callback.charge := by
    rw [messageBytes_concat, if_neg quiet]
  cases callback with
  | url span =>
      exact
        judged_charged within (fun _ => rfl) (fun _ => rfl)
          (fun impl => (absorbUrl_held span impl).le) received
  | headerField span =>
      exact
        judged_charged within (absorbField_budget span)
          (absorbField_spent span) (absorbField_held span) received
  | headerValue span =>
      exact
        judged_charged within (fun _ => rfl) (fun _ => rfl)
          (fun impl => (absorbValue_held span impl).le) received
  | headersComplete =>
      exact
        { limit_eq := within.limit_eq
          held_le := impl.commitHeader_held.1.trans within.held_le
          bytes_le := within.bytes_le
          received := within.received.trans received.symm }
  | body span =>
      exact
        { limit_eq := within.limit_eq
          held_le := within.held_le
          bytes_le := within.bytes_le
          received := within.received.trans received.symm }
  | messageComplete info => exact absurd trivial quiet

/--
The end of a message takes the charge back, and no failure there is one
of the budget.
-/
theorem judged_onMessageComplete
    (handler : RequestHandler J τ) {limit : Nat} {past : List Callback}
    {impl : Impl} (within : impl.Within limit past) (info : MessageInfo)
    (outer : τ) :
    Judged limit (past ++ [.messageComplete info])
      ((impl.onMessageComplete handler info).run outer).1 := by
  have received : messageBytes (past ++ [.messageComplete info]) = 0 := by
    rw [messageBytes_concat]
    exact if_pos trivial
  have caughtJudged (text : StdString) (exception : CxxException) :
      Judged limit (past ++ [.messageComplete info])
        (.error (caught text exception)) := by
    cases exception with
    | stdException what =>
        show false = true ↔ _
        simp [received]
    | other =>
        show _ ≤ limit
        simp [received]
  cases built : (impl.request info :
      Except CxxException (HttpRequest J)) with
  | error exception =>
      simp only [onMessageComplete, built]
      exact caughtJudged _ exception
  | ok request =>
      rw [onMessageComplete_run handler built]
      cases handler request info.shouldKeepAlive outer with
      | mk outcome after =>
      cases outcome with
      | threw exception => exact caughtJudged _ exception
      | returned =>
          exact
            { limit_eq := within.limit_eq
              held_le := by simp [resetRequest, held, StdMap.sumEntries_empty]
              bytes_le := Nat.zero_le _
              received := received.symm }

theorem judged_on
    (handler : RequestHandler J τ) {limit : Nat} {past : List Callback}
    {impl : Impl} (within : impl.Within limit past) (callback : Callback)
    (outer : τ) :
    Judged limit (past ++ [callback])
      ((impl.on handler callback).run outer).1 := by
  by_cases ends : callback.Ends
  · cases callback with
    | messageComplete info =>
        exact judged_onMessageComplete handler within info outer
    | _ => exact ends.elim
  · rw [on_quiet ends]
    exact judged_quietly within ends

/-! ## Runs of callbacks -/

/--
Some callback of a run exceeds the budget, those before it having been
accepted.
-/
def Exceeds
    (handler : RequestHandler J τ) (limit : Nat) (past : List Callback)
    (impl : Impl) (outer : τ) (callbacks : List Callback) : Prop :=
  ∃ early callback late before outer',
    callbacks = early ++ callback :: late ∧
      (early.foldlM (Impl.on handler) impl).run outer =
        (.ok before, outer') ∧
      limit < messageBytes (past ++ early ++ [callback])

theorem exceeds_cons_iff
    {handler : RequestHandler J τ} {limit : Nat} {past : List Callback}
    {impl : Impl} {outer : τ} {callback : Callback}
    {callbacks : List Callback} :
    Exceeds handler limit past impl outer (callback :: callbacks) ↔
      limit < messageBytes (past ++ [callback]) ∨
        ∃ middle outer',
          (impl.on handler callback).run outer = (.ok middle, outer') ∧
            Exceeds handler limit (past ++ [callback]) middle outer'
              callbacks := by
  constructor
  · rintro ⟨early, last, late, before, outer', cut, ran, exceeds⟩
    cases early with
    | nil =>
        rcases List.cons.inj cut with ⟨rfl, -⟩
        exact Or.inl (by simpa using exceeds)
    | cons first early =>
        rcases List.cons.inj cut with ⟨rfl, rest⟩
        rw [List.foldlM_cons, ParserM.run_bind] at ran
        split at ran
        · next middle between stepped =>
          refine
            Or.inr
              ⟨middle, between, stepped, early, last, late, before, outer',
                rest, ran, ?_⟩
          simpa using exceeds
        · cases (Prod.mk.inj ran).1
  · rintro (exceeds |
      ⟨middle, between, stepped, early, last, late, before, outer', rfl,
        ran, exceeds⟩)
    · exact
        ⟨[], callback, callbacks, impl, outer, rfl, rfl, by simpa using exceeds⟩
    · refine
        ⟨callback :: early, last, late, before, outer', rfl, ?_,
          by simpa using exceeds⟩
      rw [List.foldlM_cons, ParserM.run_bind, stepped]
      exact ran

theorem exceeds_cons_of_ok
    {handler : RequestHandler J τ} {limit : Nat} {past : List Callback}
    {impl middle : Impl} {outer between : τ} {callback : Callback}
    (stepped :
      (impl.on handler callback).run outer = (.ok middle, between))
    (bound : ¬ limit < messageBytes (past ++ [callback]))
    (callbacks : List Callback) :
    Exceeds handler limit past impl outer (callback :: callbacks) ↔
      Exceeds handler limit (past ++ [callback]) middle between
        callbacks := by
  rw [exceeds_cons_iff, or_iff_right bound]
  constructor
  · rintro ⟨other, after, same, exceeds⟩
    rcases Prod.mk.inj (stepped.symm.trans same) with ⟨state, rfl⟩
    obtain rfl := Except.ok.inj state
    exact exceeds
  · exact fun exceeds => ⟨middle, between, stepped, exceeds⟩

theorem exceeds_cons_of_error
    {handler : RequestHandler J τ} {limit : Nat} {past : List Callback}
    {impl : Impl} {outer between : τ} {callback : Callback} {stop : Stop}
    (stepped :
      (impl.on handler callback).run outer = (.error stop, between))
    (callbacks : List Callback) :
    Exceeds handler limit past impl outer (callback :: callbacks) ↔
      limit < messageBytes (past ++ [callback]) := by
  rw [exceeds_cons_iff, or_iff_left]
  rintro ⟨middle, after, same, -⟩
  cases (Prod.mk.inj (stepped.symm.trans same)).1

/--
A run of callbacks from a state within the budget ends within it, or
fails; the failure is one of the budget exactly if the budget is exceeded.
-/
theorem foldlM_judged
    (handler : RequestHandler J τ) {limit : Nat} {past : List Callback}
    {impl : Impl} (within : impl.Within limit past)
    (callbacks : List Callback) (outer : τ) :
    match ((callbacks.foldlM (Impl.on handler) impl).run outer).1 with
    | .ok after =>
        after.Within limit (past ++ callbacks) ∧
          ¬ Exceeds handler limit past impl outer callbacks
    | .error (.failed _ headerLimitHit) =>
        headerLimitHit = true ↔
          Exceeds handler limit past impl outer callbacks
    | .error (.escaped _) =>
        ¬ Exceeds handler limit past impl outer callbacks := by
  induction callbacks generalizing past impl outer with
  | nil =>
      refine ⟨by simpa using within, ?_⟩
      rintro ⟨early, last, late, -, -, cut, -⟩
      simp at cut
  | cons callback callbacks induction =>
      have judged := judged_on handler within callback outer
      rw [List.foldlM_cons, ParserM.run_bind]
      cases stepped : (impl.on handler callback).run outer with
      | mk result between =>
      rw [stepped] at judged
      cases result with
      | ok middle =>
          have bound : ¬ limit < messageBytes (past ++ [callback]) := by
            have received := judged.received
            have bytes := judged.bytes_le
            omega
          rw [exceeds_cons_of_ok stepped bound]
          simpa using induction judged between
      | error stop =>
          rw [exceeds_cons_of_error stepped]
          cases stop with
          | failed failure headerLimitHit => exact judged
          | escaped exception => exact Nat.not_lt.mpr judged

end Impl

/-! ## Runs of the parser -/

namespace HttpParser

/-- An accepted call ran all callbacks. -/
theorem execute_accepted
    {handler : RequestHandler J τ} {parser next : HttpParser llhttp}
    {data : StdString} {outer outer' : τ}
    (accepted :
      parser.execute handler data outer = (.accepted next, outer')) :
    (llhttp.execute parser.state data).errno = .ok ∧
      next.state = (llhttp.execute parser.state data).next ∧
      ((llhttp.execute parser.state data).callbacks.foldlM
        (Impl.on handler) parser.impl).run outer =
          (.ok next.impl, outer') := by
  unfold execute at accepted
  cases ran :
      ((llhttp.execute parser.state data).callbacks.foldlM
        (Impl.on handler) parser.impl).run outer with
  | mk result after =>
  simp only [ran] at accepted
  cases result with
  | ok impl =>
      dsimp only at accepted
      split at accepted
      · next fine =>
        rcases Prod.mk.inj accepted with ⟨same, rfl⟩
        obtain rfl := Executed.accepted.inj same
        exact ⟨fine, rfl, rfl⟩
      · cases (Prod.mk.inj accepted).1
  | error stop =>
      cases stop <;> cases (Prod.mk.inj accepted).1

/-- Every state between accepted calls is within the budget. -/
theorem feed_within
    (handler : RequestHandler J τ) {limit : Nat}
    {chunks : List StdString} {parser reached : HttpParser llhttp}
    {past : List Callback} {outer outer' : τ}
    (within : parser.impl.Within limit past)
    (fed : parser.feed handler chunks outer = (.accepted reached, outer')) :
    reached.impl.Within limit
      (past ++ (llhttp.feed parser.state chunks).1) := by
  induction chunks generalizing parser past outer with
  | nil =>
      rcases Prod.mk.inj fed with ⟨same, -⟩
      obtain rfl := Executed.accepted.inj same
      simpa [Llhttp.feed] using within
  | cons chunk chunks induction =>
      rw [feed] at fed
      cases called : parser.execute handler chunk outer with
      | mk executed between =>
      cases executed with
      | failed status reason =>
          rw [called] at fed
          cases (Prod.mk.inj fed).1
      | escaped exception =>
          rw [called] at fed
          cases (Prod.mk.inj fed).1
      | accepted next =>
          rw [called] at fed
          rcases execute_accepted called with ⟨fine, state, ran⟩
          have judged :=
            Impl.foldlM_judged handler within
              (llhttp.execute parser.state chunk).callbacks outer
          rw [ran] at judged
          have later := induction judged.1 fed
          simpa [Llhttp.feed, fine, state] using later

/-- Which failure a call of `execute` reports. -/
theorem execute_failed
    (handler : RequestHandler J τ) {limit : Nat} {past : List Callback}
    {parser : HttpParser llhttp} (within : parser.impl.Within limit past)
    (data : StdString) (outer : τ) :
    (∀ status reason,
        (parser.execute handler data outer).1 = .failed status reason →
        status = 431 ∨ status = 400) ∧
      ((∃ reason,
          (parser.execute handler data outer).1 = .failed 431 reason) ↔
        Impl.Exceeds handler limit past parser.impl outer
          (llhttp.execute parser.state data).callbacks) := by
  have judged :=
    Impl.foldlM_judged handler within
      (llhttp.execute parser.state data).callbacks outer
  unfold execute
  cases ran :
      ((llhttp.execute parser.state data).callbacks.foldlM
        (Impl.on handler) parser.impl).run outer with
  | mk result after =>
  rw [ran] at judged
  simp only [ran]
  cases result with
  | ok impl =>
      refine ⟨?_, iff_of_false ?_ judged.2⟩
      · intro status reason
        dsimp only
        split
        · rintro ⟨⟩
        · rintro ⟨⟩
          exact Or.inr rfl
      · rintro ⟨reason, failed⟩
        dsimp only at failed
        split at failed <;> cases failed
  | error stop =>
      cases stop with
      | escaped exception =>
          refine ⟨by rintro _ _ ⟨⟩, iff_of_false ?_ judged⟩
          rintro ⟨reason, ⟨⟩⟩
      | failed failure headerLimitHit =>
          cases headerLimitHit with
          | true =>
              refine ⟨?_, iff_of_true ⟨failure, rfl⟩ (judged.mp rfl)⟩
              rintro status reason ⟨⟩
              exact Or.inl rfl
          | false =>
              refine
                ⟨?_, iff_of_false ?_ fun exceeds =>
                  absurd (judged.mpr exceeds) (by simp)⟩
              · rintro status reason ⟨⟩
                exact Or.inr rfl
              · rintro ⟨reason, ⟨⟩⟩

end HttpParser

/--
The header budget holds in every run.

After any accepted calls, and after any callbacks of the next call that were
accepted too, the bytes held are at most the bytes charged, these are at most
the limit and are the url, field and value bytes of the current message.  A
request is delivered only at the end of its own message, which is within the
limit.  The next call
fails with status 431 exactly if a callback makes the message exceed the
limit, those before it having been accepted, and with 400 whenever it fails
otherwise.
-/
theorem header_budget
    (limit : Nat) (handler : RequestHandler J τ)
    {chunks : List StdString} {parser : HttpParser llhttp}
    {outer outer' : τ}
    (fed :
      (HttpParser.new llhttp limit).feed handler chunks outer =
        (.accepted parser, outer'))
    (chunk : StdString) :
    let past := (llhttp.feed llhttp.init chunks).1
    let callbacks := (llhttp.execute parser.state chunk).callbacks
    (∀ early late impl after,
        callbacks = early ++ late →
        (early.foldlM (Impl.on handler) parser.impl).run outer' =
          (.ok impl, after) →
        impl.held ≤ impl.headerBytes ∧ impl.headerBytes ≤ limit ∧
          impl.headerBytes = messageBytes (past ++ early)) ∧
      (∀ front request keepAlive back,
        parser.delivers J chunk = front ++ (request, keepAlive) :: back →
        ∃ early info late before,
          callbacks = early ++ .messageComplete info :: late ∧
            info.shouldKeepAlive = keepAlive ∧
            (early.foldlM (Impl.on record) parser.impl).run [] =
              (.ok before, front) ∧
            before.request info = .ok request ∧
            messageBytes (past ++ early) ≤ limit) ∧
      (∀ status reason,
        (parser.execute handler chunk outer').1 = .failed status reason →
        status = 431 ∨ status = 400) ∧
      ((∃ reason,
          (parser.execute handler chunk outer').1 = .failed 431 reason) ↔
        Impl.Exceeds handler limit past parser.impl outer' callbacks) := by
  intro past callbacks
  have within : parser.impl.Within limit past := by
    have fresh : (HttpParser.new llhttp limit).impl.Within limit [] :=
      Impl.within_new limit
    exact HttpParser.feed_within handler fresh fed
  refine
    ⟨?_, ?_, (HttpParser.execute_failed handler within chunk outer').1,
      (HttpParser.execute_failed handler within chunk outer').2⟩
  · intro early late impl after cut ran
    have judged := Impl.foldlM_judged handler within early outer'
    rw [ran] at judged
    exact ⟨judged.1.held_le, judged.1.bytes_le, judged.1.received⟩
  · intro front request keepAlive back delivered
    obtain ⟨early, info, late, before, cut, flag, led, built, -⟩ :=
      Impl.foldlM_record_split
        (Prod.ext rfl delivered :
          parser.reads J chunk =
            ((parser.reads J chunk).1, front ++ (request, keepAlive) :: back))
    have judged := Impl.foldlM_judged (J := J) record within early []
    rw [led] at judged
    refine ⟨early, info, late, before, cut, flag, led, built, ?_⟩
    rw [← judged.1.received]
    exact judged.1.bytes_le

/-- A request whose target is longer than sixteen bytes. -/
def longRequest : StdString :=
  ascii "GET /a/rather/long/target HTTP/1.1\r\n\r\n"

theorem header_budget_longRequest :
    Impl.Exceeds (record : RequestHandler FlatJson _) 16 []
      (HttpParser.new bodilessRequests.llhttp 16).impl []
      (bodilessRequests.llhttp.execute bodilessRequests.llhttp.init
        longRequest).callbacks := by
  have failed :
      ((HttpParser.new bodilessRequests.llhttp 16).execute
          (record : RequestHandler FlatJson _) longRequest
          []).1.verdict = some (.ok 431) := by
    decide +kernel
  refine
    (@header_budget FlatJson _ _ bodilessRequests.llhttp 16 record [] _ []
      [] rfl longRequest).2.2.2.mp ?_
  cases executed :
      ((HttpParser.new bodilessRequests.llhttp 16).execute
        (record : RequestHandler FlatJson _) longRequest []).1 with
  | accepted parser => simp [executed, Executed.verdict] at failed
  | escaped exception => simp [executed, Executed.verdict] at failed
  | failed status reason =>
      obtain rfl : status = 431 := by
        simpa [executed, Executed.verdict] using failed
      exact ⟨reason, rfl⟩

end PlusWeb
