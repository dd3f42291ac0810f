import PlusWeb.HeaderBudget

/-!
# Whole messages

A message as llhttp reports it: the target, the fields of the header section,
its end, the body, the trailer fields, and the end of the message.  Names and
values come in spans; a name is not empty, and a value has a span even if it
is empty.

The parser commits a field when the next one begins or the header section
ends.  A trailer field is therefore committed by the trailer field behind it,
and the last one never is.
-/

namespace PlusWeb

/-- A field line, in the spans it is reported in. -/
structure ReportedField where
  name : List StdString
  value : List StdString
  named : name.flatten ≠ []
  valued : value ≠ []

namespace ReportedField

/-- The callbacks of a field line. -/
def callbacks (field : ReportedField) : List Callback :=
  field.name.map .headerField ++ field.value.map .headerValue

/-- The name and the value. -/
def entry (field : ReportedField) : StdString × StdString :=
  (field.name.flatten, field.value.flatten)

end ReportedField

/-- A message, in the order it is reported in. -/
structure ReportedMessage where
  target : List StdString
  fields : List ReportedField
  body : List StdString
  trailers : List ReportedField
  info : MessageInfo

namespace ReportedMessage

/-- The callbacks before the end of the message. -/
def front (message : ReportedMessage) : List Callback :=
  message.target.map .url ++
    (message.fields.flatMap ReportedField.callbacks ++
      (.headersComplete ::
        (message.body.map .body ++
          message.trailers.flatMap ReportedField.callbacks)))

/-- The callbacks of the message. -/
def callbacks (message : ReportedMessage) : List Callback :=
  message.front ++ [.messageComplete message.info]

/-- The bytes charged to the header budget. -/
def charge (message : ReportedMessage) : Nat :=
  (message.front.map Callback.charge).sum

/-- The fields that are committed before the message ends. -/
def committed (message : ReportedMessage) : List (StdString × StdString) :=
  (message.fields ++ message.trailers.dropLast).map ReportedField.entry

/-- What the parser has gathered when the message ends. -/
def gathered (message : ReportedMessage) : Impl where
  target := message.target.flatten
  field := []
  value := []
  body := message.body.flatten
  headers := StdMap.insertAll ∅ message.committed
  readingValue := false
  maxHeaderBytes := 0
  headerBytes := 0

/-- What becomes of the message in a fresh parser. -/
def outcome
    (J : Type) [Json J] (limit : Nat) (message : ReportedMessage) :
    Except Stop (HttpRequest J) :=
  if limit < message.charge then .error (Impl.overBudget limit)
  else
    match (message.gathered.request message.info :
      Except CxxException (HttpRequest J)) with
    | .ok request => .ok request
    | .error exception =>
        .error (Impl.caught (ascii "invalid JSON body: ") exception)

end ReportedMessage

/-! ## Callbacks within the budget -/

namespace Impl

/-- What a callback that ends no message does within the budget. -/
def absorb (impl : Impl) (callback : Callback) : Impl :=
  let charged := impl.setHeaderBytes (impl.headerBytes + callback.charge)
  match callback with
  | .url span => absorbUrl span charged
  | .headerField span => absorbField span charged
  | .headerValue span => absorbValue span charged
  | .headersComplete => impl.commitHeader
  | .body span => { impl with body := impl.body ++ span }
  | .messageComplete _ => impl

theorem absorb_bytes
    {callback : Callback} (quiet : ¬ callback.Ends) (impl : Impl) :
    (impl.absorb callback).headerBytes =
        impl.headerBytes + callback.charge ∧
      (impl.absorb callback).maxHeaderBytes = impl.maxHeaderBytes := by
  cases callback with
  | url span => exact ⟨rfl, rfl⟩
  | headerField span =>
      exact ⟨absorbField_spent span _, absorbField_budget span _⟩
  | headerValue span => exact ⟨rfl, rfl⟩
  | headersComplete => exact ⟨rfl, rfl⟩
  | body span => exact ⟨rfl, rfl⟩
  | messageComplete info => exact absurd trivial quiet

theorem foldl_absorb_budget
    {callbacks : List Callback}
    (quiet : ∀ callback ∈ callbacks, ¬ callback.Ends) (impl : Impl) :
    (callbacks.foldl absorb impl).maxHeaderBytes = impl.maxHeaderBytes := by
  induction callbacks generalizing impl with
  | nil => rfl
  | cons callback callbacks induction =>
      have first := quiet callback (List.mem_cons_self ..)
      rw [List.foldl_cons, induction fun later member =>
        quiet later (List.mem_cons_of_mem _ member)]
      exact (absorb_bytes first impl).2

theorem quietly_eq
    {callback : Callback} (quiet : ¬ callback.Ends) {impl : Impl}
    (within : impl.headerBytes ≤ impl.maxHeaderBytes) :
    impl.quietly callback =
      if impl.maxHeaderBytes < impl.headerBytes + callback.charge then
        .error (overBudget impl.maxHeaderBytes)
      else .ok (impl.absorb callback) := by
  cases callback with
  | url span => rfl
  | headerField span => rfl
  | headerValue span => rfl
  | headersComplete => exact (if_neg (not_lt.mpr within)).symm
  | body span => exact (if_neg (not_lt.mpr within)).symm
  | messageComplete info => exact absurd trivial quiet

/-- A run that ends no message fails exactly if it exceeds the budget. -/
theorem foldlM_absorb
    {J τ : Type} [Json J] (handler : RequestHandler J τ) {callbacks : List Callback}
    (quiet : ∀ callback ∈ callbacks, ¬ callback.Ends) {impl : Impl}
    (within : impl.headerBytes ≤ impl.maxHeaderBytes) (outer : τ) :
    (callbacks.foldlM (Impl.on handler) impl).run outer =
      (if impl.maxHeaderBytes <
            impl.headerBytes + (callbacks.map Callback.charge).sum then
          .error (overBudget impl.maxHeaderBytes)
        else .ok (callbacks.foldl absorb impl), outer) := by
  induction callbacks generalizing impl with
  | nil => simp [not_lt.mpr within]
  | cons callback callbacks induction =>
      have quietFirst := quiet callback (List.mem_cons_self ..)
      rcases absorb_bytes quietFirst impl with ⟨bytes, limit⟩
      rw [List.foldlM_cons, ParserM.run_bind, on_quiet quietFirst,
        quietly_eq quietFirst within, List.map_cons, List.sum_cons]
      by_cases exceeds :
          impl.maxHeaderBytes < impl.headerBytes + callback.charge
      · rw [if_pos exceeds, if_pos (by omega)]
      · rw [if_neg exceeds]
        have rest :=
          @induction
            (fun later member => quiet later (List.mem_cons_of_mem _ member))
            (impl.absorb callback) (by omega)
        simp only [rest, bytes, limit, List.foldl_cons, Nat.add_assoc]

/-! ## What is gathered -/

/-- The headers, and a field that is not committed yet. -/
def withPending (field value : StdString) (headers : StdMap) : StdMap :=
  if field ≠ [] then headers.insert field value else headers

/-- The parts of the state that a request is made of. -/
structure Reads
    (impl : Impl) (target body field value : StdString) (headers : StdMap)
    (readingValue : Bool) : Prop where
  target_eq : impl.target = target
  body_eq : impl.body = body
  field_eq : impl.field = field
  value_eq : impl.value = value
  headers_eq : impl.headers = headers
  reading_eq : impl.readingValue = readingValue

section Gathering

variable {impl : Impl} {target body field value : StdString}
  {headers : StdMap} {readingValue : Bool}

theorem reads_new (limit : Nat) : (new limit).Reads [] [] [] [] ∅ false :=
  ⟨rfl, rfl, rfl, rfl, rfl, rfl⟩

theorem reads_targets
    (reads : impl.Reads target body field value headers readingValue)
    (spans : List StdString) :
    ((spans.map Callback.url).foldl absorb impl).Reads
      (target ++ spans.flatten) body field value headers readingValue := by
  induction spans generalizing impl target with
  | nil => simpa using reads
  | cons span spans induction =>
      have next :
          (impl.absorb (.url span)).Reads (target ++ span) body field value
            headers readingValue :=
        { reads with
          target_eq := congrArg (· ++ span) reads.target_eq }
      have rest := induction next
      rwa [List.append_assoc] at rest

theorem reads_bodies
    (reads : impl.Reads target body field value headers readingValue)
    (spans : List StdString) :
    ((spans.map Callback.body).foldl absorb impl).Reads
      target (body ++ spans.flatten) field value headers readingValue := by
  induction spans generalizing impl body with
  | nil => simpa using reads
  | cons span spans induction =>
      have next :
          (impl.absorb (.body span)).Reads target (body ++ span) field value
            headers readingValue :=
        { reads with body_eq := congrArg (· ++ span) reads.body_eq }
      have rest := induction next
      rwa [List.append_assoc] at rest

theorem reads_headersComplete
    (reads : impl.Reads target body field value headers readingValue) :
    (impl.absorb .headersComplete).Reads target body [] []
      (withPending field value headers) readingValue := by
  refine { reads with field_eq := rfl, value_eq := rfl, headers_eq := ?_ }
  show (if impl.field ≠ [] then impl.headers.insert impl.field impl.value
    else impl.headers) = _
  rw [reads.field_eq, reads.value_eq, reads.headers_eq]
  rfl

/-- Further spans of a name. -/
theorem reads_more_name
    (reads : impl.Reads target body field value headers false)
    (spans : List StdString) :
    ((spans.map Callback.headerField).foldl absorb impl).Reads
      target body (field ++ spans.flatten) value headers false := by
  induction spans generalizing impl field with
  | nil => simpa using reads
  | cons span spans induction =>
      have next :
          (impl.absorb (.headerField span)).Reads target body
            (field ++ span) value headers false := by
        have reading := reads.reading_eq
        constructor <;>
          simp [absorb, absorbField, reading, setHeaderBytes,
            reads.target_eq, reads.body_eq, reads.field_eq, reads.value_eq,
            reads.headers_eq]
      have rest := induction next
      rwa [List.append_assoc] at rest

/-- The first span of a name commits the field before it. -/
theorem reads_name
    (reads : impl.Reads target body field value headers readingValue)
    (settled : readingValue = true ∨ field = [] ∧ value = [])
    {spans : List StdString} (nonempty : spans ≠ []) :
    ((spans.map Callback.headerField).foldl absorb impl).Reads
      target body spans.flatten [] (withPending field value headers)
      false := by
  cases spans with
  | nil => exact absurd rfl nonempty
  | cons span spans =>
      have next :
          (impl.absorb (.headerField span)).Reads target body span []
            (withPending field value headers) false := by
        have reading := reads.reading_eq
        rcases settled with rfl | ⟨rfl, rfl⟩
        · constructor <;>
            simp [absorb, absorbField, reading, setHeaderBytes,
              commitHeader, withPending, reads.target_eq, reads.body_eq,
              reads.field_eq, reads.value_eq, reads.headers_eq]
        · cases readingValue <;> constructor <;>
            simp [absorb, absorbField, reading, setHeaderBytes,
              commitHeader, withPending, reads.target_eq, reads.body_eq,
              reads.field_eq, reads.value_eq, reads.headers_eq]
      exact reads_more_name next spans

theorem reads_value
    (reads : impl.Reads target body field value headers readingValue)
    {spans : List StdString} (nonempty : spans ≠ []) :
    ((spans.map Callback.headerValue).foldl absorb impl).Reads
      target body field (value ++ spans.flatten) headers true := by
  induction spans generalizing impl value readingValue with
  | nil => exact absurd rfl nonempty
  | cons span spans induction =>
      have next :
          (impl.absorb (.headerValue span)).Reads target body field
            (value ++ span) headers true :=
        { reads with
          value_eq := congrArg (· ++ span) reads.value_eq
          reading_eq := rfl }
      by_cases last : spans = []
      · subst last
        simpa using next
      · have rest := induction next last
        rwa [List.append_assoc] at rest

/-- A field line is read, and the one before it committed. -/
theorem reads_field
    (reads : impl.Reads target body field value headers readingValue)
    (settled : readingValue = true ∨ field = [] ∧ value = [])
    (line : ReportedField) :
    (line.callbacks.foldl absorb impl).Reads target body line.entry.1
      line.entry.2 (withPending field value headers) true := by
  have spans : line.name ≠ [] := by
    intro none
    exact line.named (by rw [none]; rfl)
  rw [ReportedField.callbacks, List.foldl_append]
  exact reads_value (reads_name reads settled spans) line.valued

/-- After some field lines all of them but the last are committed. -/
theorem reads_fields
    (reads : impl.Reads target body field value headers readingValue)
    (settled : readingValue = true ∨ field = [] ∧ value = [])
    (lines : List ReportedField) :
    ∃ field' value' headers' readingValue',
      ((lines.flatMap ReportedField.callbacks).foldl absorb impl).Reads
          target body field' value' headers' readingValue' ∧
        (readingValue' = true ∨ field' = [] ∧ value' = []) ∧
        withPending field' value' headers' =
          StdMap.insertAll (withPending field value headers)
            (lines.map ReportedField.entry) ∧
        headers' =
          if lines = [] then headers
          else
            StdMap.insertAll (withPending field value headers)
              (lines.dropLast.map ReportedField.entry) := by
  induction lines generalizing impl field value headers readingValue with
  | nil => exact ⟨_, _, _, _, reads, settled, rfl, (if_pos rfl).symm⟩
  | cons line lines induction =>
      have next := reads_field reads settled line
      have pending :
          withPending line.entry.1 line.entry.2
              (withPending field value headers) =
            StdMap.insertAll (withPending field value headers)
              [line.entry] :=
        if_pos line.named
      obtain ⟨field', value', headers', reading', after, settled', all, early⟩ :=
        induction next (Or.inl rfl)
      refine ⟨field', value', headers', reading', ?_, settled', ?_, ?_⟩
      · rw [List.flatMap_cons, List.foldl_append]
        exact after
      · rw [all, pending, List.map_cons, StdMap.insertAll_cons]
        rfl
      · rw [if_neg (List.cons_ne_nil _ _), early]
        cases lines with
        | nil => rfl
        | cons later lines =>
            rw [if_neg (List.cons_ne_nil _ _), pending,
              List.dropLast_cons_cons, List.map_cons,
              StdMap.insertAll_cons]
            rfl

/-- What a whole message leaves, before its end. -/
theorem reads_front (message : ReportedMessage) (limit : Nat) :
    ∃ field value readingValue,
      (message.front.foldl absorb (new limit)).Reads
        message.target.flatten message.body.flatten field value
        (StdMap.insertAll ∅ message.committed) readingValue := by
  have target := reads_targets (reads_new limit) message.target
  obtain ⟨field, value, headers, reading, section_, settled, all, -⟩ :=
    reads_fields target (Or.inr ⟨rfl, rfl⟩) message.fields
  have complete := reads_headersComplete section_
  have body := reads_bodies complete message.body
  obtain ⟨field', value', headers', reading', trailers, -, -, late⟩ :=
    reads_fields body (Or.inr ⟨rfl, rfl⟩) message.trailers
  have nothing (map : StdMap) : withPending [] [] map = map := rfl
  have same : headers' = StdMap.insertAll ∅ message.committed := by
    rw [nothing] at all late
    rw [ReportedMessage.committed, List.map_append, StdMap.insertAll,
      List.foldl_append, late, all]
    by_cases none : message.trailers = []
    · rw [none]
      rfl
    · rw [if_neg none]
      rfl
  refine ⟨field', value', reading', ?_⟩
  rw [ReportedMessage.front]
  simp only [List.foldl_append, List.foldl_cons]
  rw [← same]
  exact trailers

end Gathering

/-- The request depends on the target, the headers and the body. -/
theorem request_congr
    {J : Type} [Json J] {impl impl' : Impl}
    (target : impl.target = impl'.target) (body : impl.body = impl'.body)
    (headers : impl.headers = impl'.headers) (info : MessageInfo) :
    (impl.request info : Except CxxException (HttpRequest J)) =
      impl'.request info := by
  simp only [request, requestBody, target, body, headers]

end Impl

/-! ## Streams of messages -/

section Streams

variable {J : Type} [Json J] {llhttp : Llhttp}

namespace ReportedMessage

theorem front_quiet (message : ReportedMessage) :
    ∀ callback ∈ message.front, ¬ callback.Ends := by
  have field (line : ReportedField) :
      ∀ callback ∈ line.callbacks, ¬ callback.Ends := by
    intro callback member
    rcases List.mem_append.mp member with name | value
    · rcases List.mem_map.mp name with ⟨span, -, rfl⟩
      exact not_false
    · rcases List.mem_map.mp value with ⟨span, -, rfl⟩
      exact not_false
  intro callback member
  simp only [front, List.mem_append, List.mem_cons, List.mem_map,
    List.mem_flatMap] at member
  rcases member with
    ⟨span, -, rfl⟩ | ⟨line, -, inside⟩ | rfl | ⟨span, -, rfl⟩ |
      ⟨line, -, inside⟩
  · exact not_false
  · exact field line callback inside
  · exact not_false
  · exact not_false
  · exact field line callback inside

/-- A whole message in a fresh parser. -/
theorem run_callbacks
    (message : ReportedMessage) (limit : Nat)
    (log : List (HttpRequest J × Bool)) :
    (message.callbacks.foldlM (Impl.on record) (Impl.new limit)).run log =
      match message.outcome J limit with
      | .ok request =>
          (.ok (Impl.new limit),
            log ++ [(request, message.info.shouldKeepAlive)])
      | .error stop => (.error stop, log) := by
  have fronts :=
    Impl.foldlM_absorb record message.front_quiet
      (show (Impl.new limit).headerBytes ≤ _ from Nat.zero_le limit) log
  have charged :
      (Impl.new limit).headerBytes +
          (message.front.map Callback.charge).sum = message.charge :=
    Nat.zero_add _
  have limited : (Impl.new limit).maxHeaderBytes = limit := rfl
  rw [charged, limited] at fronts
  rw [callbacks, List.foldlM_append, ParserM.run_bind, fronts, outcome]
  by_cases exceeds : limit < message.charge
  · rw [if_pos exceeds, if_pos exceeds]
  · rw [if_neg exceeds, if_neg exceeds]
    rcases Impl.reads_front message limit with ⟨field, value, reading, reads⟩
    have budget := Impl.foldl_absorb_budget message.front_quiet (Impl.new limit)
    have same :=
      @Impl.request_congr J _ (message.front.foldl Impl.absorb (Impl.new limit))
        message.gathered reads.target_eq reads.body_eq reads.headers_eq
        message.info
    simp only [List.foldlM_cons, ParserM.run_bind, Impl.on]
    rw [← same]
    cases built :
        ((message.front.foldl Impl.absorb (Impl.new limit)).request
          message.info : Except CxxException (HttpRequest J)) with
    | ok request =>
        rw [Impl.onMessageComplete_run record built]
        simp only [record, Action.modify, Impl.resetRequest, budget]
        rfl
    | error exception =>
        simp only [Impl.onMessageComplete, built]
        rfl

end ReportedMessage

/--
What a fresh parser reads of whole messages: whether it goes on, and the
requests delivered with their keep-alive flags.
-/
def readMessages (J : Type) [Json J] (limit : Nat) :
    List ReportedMessage → Except Stop Unit × List (HttpRequest J × Bool)
  | [] => (.ok (), [])
  | message :: messages =>
      match message.outcome J limit with
      | .ok request =>
          let (result, delivered) := readMessages J limit messages
          (result, (request, message.info.shouldKeepAlive) :: delivered)
      | .error stop => (.error stop, [])

/-- Whole messages and then some more callbacks, in a fresh parser. -/
theorem run_messages
    (limit : Nat) (messages : List ReportedMessage) (rest : List Callback)
    (log : List (HttpRequest J × Bool)) :
    ((messages.flatMap ReportedMessage.callbacks ++ rest).foldlM
        (Impl.on record) (Impl.new limit)).run log =
      match readMessages J limit messages with
      | (.ok (), delivered) =>
          (rest.foldlM (Impl.on record) (Impl.new limit)).run
            (log ++ delivered)
      | (.error stop, delivered) => (.error stop, log ++ delivered) := by
  induction messages generalizing log with
  | nil => simp [readMessages]
  | cons message messages induction =>
      rw [List.flatMap_cons, List.append_assoc, List.foldlM_append,
        ParserM.run_bind, message.run_callbacks, readMessages]
      cases message.outcome J limit with
      | error stop => simp
      | ok request =>
          dsimp only
          rw [induction]
          cases readMessages J limit messages with
          | mk result delivered => cases result <;> simp

/--
llhttp reports whole messages for the stream, and behind them some
callbacks that end no message.
-/
def Llhttp.Reports
    (llhttp : Llhttp) (chunks : List StdString)
    (messages : List ReportedMessage) (rest : List Callback) : Prop :=
  (llhttp.feed llhttp.init chunks).1 =
      messages.flatMap ReportedMessage.callbacks ++ rest ∧
    ∀ callback ∈ rest, ¬ callback.Ends

/-- The requests delivered for a stream are those of its messages. -/
theorem deliveries_of_reports
    {chunks : List StdString} {messages : List ReportedMessage}
    {rest : List Callback}
    (reports : llhttp.Reports chunks messages rest) (limit : Nat) :
    deliveries J llhttp limit chunks = (readMessages J limit messages).2 := by
  have stream := run_messages (J := J) limit messages rest []
  rw [deliveries_eq, judge, reports.1, stream]
  cases readMessages J limit messages with
  | mk result delivered =>
  cases result with
  | error stop => cases stop <;> rfl
  | ok done =>
      have quiet :=
        (Impl.foldlM_quiet (J := J) reports.2 record (Impl.new limit)
          delivered).1
      simp only [List.nil_append]
      cases ran :
          ((rest.foldlM (Impl.on record) (Impl.new limit)).run
            delivered) with
      | mk result after =>
      rw [ran] at quiet
      cases result with
      | ok impl => exact quiet
      | error stop => cases stop <;> exact quiet

/-- Each delivery is what its message comes to. -/
theorem outcome_of_delivery
    {limit : Nat} {messages : List ReportedMessage} {position : Nat}
    {delivery : HttpRequest J × Bool}
    (delivered :
      (readMessages J limit messages).2[position]? = some delivery)
    {message : ReportedMessage}
    (placed : messages[position]? = some message) :
    message.outcome J limit = .ok delivery.1 := by
  induction messages generalizing position with
  | nil => cases placed
  | cons first messages induction =>
      rw [readMessages] at delivered
      cases reached : first.outcome J limit with
      | error stop => simp [reached] at delivered
      | ok request =>
          rw [reached] at delivered
          cases position with
          | zero =>
              obtain rfl : first = message := by simpa using placed
              obtain rfl :
                  (request, first.info.shouldKeepAlive) = delivery := by
                simpa using delivered
              exact reached
          | succ position =>
              exact induction (by simpa using delivered) (by simpa using placed)

end Streams

end PlusWeb
