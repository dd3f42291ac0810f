import PlusWeb.ResponseHead
import PlusWeb.WriteBacklog
import PlusWeb.ResponseCalls
import PlusWeb.Library.LengthFraming

/-!
# Responses on a connection that is kept alive

A client finds the end of a response by the message-length rules of HTTP: no
body follows the head of a response to `HEAD`, nor one with a status 1xx, 204
or 304; behind any other head come as many bytes as `Content-Length` says.

The server writes the body of every response but those to `HEAD`, whatever
the status is, and libuv takes the length of a buffer modulo 2³².
-/

namespace PlusWeb

open ListSearch LineBlock LengthFraming

/-! ## The client -/

/-- A decimal number without a sign. -/
def readNat (text : StdString) : Option Nat :=
  if text ≠ [] ∧ ∀ byte ∈ text, 48 ≤ byte ∧ byte ≤ 57 then
    some (Nat.ofDigits 10 (text.reverse.map fun byte => byte.toNat - 48))
  else none

/-- The status of a status line: what stands between its first two spaces. -/
def statusCode (line : StdString) : Option Nat :=
  readNat (before 32 (after 32 line))

/-- The statuses without a body. -/
def Bodyless (status : Nat) : Prop :=
  100 ≤ status ∧ status < 200 ∨ status = 204 ∨ status = 304

instance : DecidablePred Bodyless := fun _ =>
  inferInstanceAs (Decidable (_ ∨ _))

/-- The line of a header field with this name, in any case. -/
def IsField (name line : StdString) : Prop :=
  SameButCase (before colon line) name

instance (name : StdString) : DecidablePred (IsField name) := fun _ =>
  inferInstanceAs (Decidable (SameButCase _ _))

/-- The number behind the name of the first `Content-Length` line. -/
def contentLength (fields : List StdString) : Option Nat :=
  (fields.find? fun line => IsField (ascii "Content-Length") line).bind
    fun line => readNat ((after colon line).dropWhile (· = 32))

/--
The message-length rules, for the method of the request and the lines of
the head.
-/
def bodyBytes (method : StdString) : List StdString → Option Nat
  | [] => none
  | statusLine :: fields =>
      if method = ascii "HEAD" ∨ ∃ status ∈ statusCode statusLine, Bodyless status then
        some 0
      else contentLength fields

theorem bodyBytes_of_bodyless
    {line : StdString} {status : Nat} (found : statusCode line = some status)
    (bodyless : Bodyless status) (method : StdString)
    (fields : List StdString) :
    bodyBytes method (line :: fields) = some 0 :=
  if_pos (Or.inr ⟨status, found, bodyless⟩)

/-- A client of the connection. -/
def httpClient : Reader UInt8 StdString (List StdString) where
  head := readHead
  count := bodyBytes

theorem httpClient_head
    {text rest : StdString} {lines : List StdString}
    (read : readHead text = some (lines, rest)) :
    httpClient.head text = some (lines, rest) := read

theorem readNat_ofNat (value : Nat) :
    readNat (StdString.ofNat value) = some value := by
  have nonempty : StdString.ofNat value ≠ [] := by
    unfold StdString.ofNat
    split
    · decide
    · next positive =>
      simpa [Nat.digits_eq_nil_iff_eq_zero] using positive
  rw [readNat, if_pos ⟨nonempty, fun byte => StdString.mem_ofNat⟩,
    StdString.ofDigits_ofNat]

/-- A negative number is not read. -/
theorem readNat_ofInt (value : Int) :
    readNat (StdString.ofInt value) =
      if 0 ≤ value then some value.toNat else none := by
  cases value with
  | ofNat value => exact readNat_ofNat value
  | negSucc value =>
      rw [if_neg (by omega), readNat, if_neg]
      rintro ⟨-, digits⟩
      have minus := digits 45 (by simp [StdString.ofInt, ascii])
      exact absurd minus.1 (by decide)

/-! ## The head, read by the client -/

variable {J A : Type}

namespace HttpResponse

/--
Neither the names nor the values of the headers contain CRLF, and no name
but `Content-Length` reads as this one.
-/
def PlainHeaders (response : HttpResponse J) : Prop :=
  ∀ entry ∈ response.headers.toList,
    CrlfFree entry.1 ∧ CrlfFree entry.2 ∧
      (entry.1 ≠ ascii "Content-Length" →
        ¬ SameButCase (before colon entry.1) (ascii "Content-Length"))

instance (response : HttpResponse J) : Decidable response.PlainHeaders :=
  inferInstanceAs (Decidable (∀ _ ∈ _, _))

/-- A header written by the program itself keeps the headers plain. -/
theorem plainHeaders_setHeader
    {response : HttpResponse J} (plain : response.PlainHeaders)
    {key value : StdString} (keyFree : CrlfFree key)
    (valueFree : CrlfFree value)
    (apart : key ≠ ascii "Content-Length" →
      ¬ SameButCase (before colon key) (ascii "Content-Length")) :
    (response.setHeader key value).PlainHeaders := by
  rintro ⟨name, text⟩ member
  have found := Std.ExtTreeMap.mem_toList_iff_getElem?_eq_some.mp member
  simp only [setHeader, StdMap.getElem?_insert] at found
  split at found
  · next same =>
    obtain rfl := Option.some.inj found
    subst same
    exact ⟨keyFree, valueFree, apart⟩
  · exact plain (name, text)
      (Std.ExtTreeMap.mem_toList_iff_getElem?_eq_some.mpr found)

theorem plainHeaders_complete
    {response : HttpResponse J} (plain : response.PlainHeaders)
    (keepAlive : Bool) : (response.complete keepAlive).PlainHeaders := by
  have digits : CrlfFree (StdString.ofNat response.body.length) := by
    apply free_of_notMem
    intro member
    exact absurd (StdString.mem_ofNat member).1 (by decide)
  apply plainHeaders_setHeader _ (free_of_notMem (by decide)) digits
    (absurd rfl)
  apply plainHeaders_setHeader plain (free_of_notMem (by decide))
  · cases keepAlive <;> exact free_of_notMem (by decide)
  · intro _
    decide

/-- The status the client reads. -/
theorem statusCode_statusLine
    {response : HttpResponse J}
    (protocol : response.protocol = ascii "HTTP/1.1") (memory : Int) :
    statusCode (response.statusLine memory) =
      if 0 ≤ response.status.getD memory then
        some (response.status.getD memory).toNat
      else none := by
  have digits :
      (32 : UInt8) ∉ StdString.ofInt (response.status.getD memory) := by
    intro member
    rcases StdString.mem_ofInt member with sign | digit
    · simp at sign
    · exact absurd digit.1 (by decide)
  have cut :
      response.statusLine memory =
        ascii "HTTP/1.1" ++
          32 :: (StdString.ofInt (response.status.getD memory) ++
            32 :: getResponseMessage (response.status.getD memory)) := by
    have space : ascii " " = [32] := by decide
    simp [statusLine, protocol, space]
  rw [statusCode, cut, after_append_cons (by decide),
    before_append_cons digits, readNat_ofInt]

/-- The name before the colon of a header line. -/
theorem before_headerLine (name value : StdString) :
    before colon (headerLine (name, value)) = before colon name := by
  have cut : headerLine (name, value) = name ++ colon :: 32 :: value := by
    have mark : ascii ": " = [colon, 32] := by decide
    simp [headerLine, mark]
  rw [cut]
  by_cases inside : colon ∈ name
  · rcases List.eq_append_cons_of_mem inside with ⟨front, back, rfl, absent⟩
    rw [List.append_assoc, List.cons_append, before_append_cons absent,
      before_append_cons absent]
  · rw [before_append_cons inside, before_of_notMem inside]

/-- The length the client reads is the one `handleRequest` declares. -/
theorem contentLength_complete
    {response : HttpResponse J} (plain : response.PlainHeaders)
    (keepAlive : Bool) :
    contentLength ((response.complete keepAlive).headers.toList.map
        headerLine) = some response.body.length := by
  have declared := response.complete_contentLength keepAlive
  have written :
      headerLine
          (ascii "Content-Length", StdString.ofNat response.body.length) ∈
        (response.complete keepAlive).headers.toList.map headerLine :=
    List.mem_map_of_mem
      (Std.ExtTreeMap.mem_toList_iff_getElem?_eq_some.mpr declared)
  have only :
      ∀ line ∈ (response.complete keepAlive).headers.toList.map headerLine,
        IsField (ascii "Content-Length") line →
          line = headerLine
            (ascii "Content-Length",
              StdString.ofNat response.body.length) := by
    intro line member isField
    rcases List.mem_map.mp member with ⟨⟨name, value⟩, entry, rfl⟩
    rw [IsField, before_headerLine] at isField
    have named : name = ascii "Content-Length" := by
      by_contra other
      exact (plainHeaders_complete plain keepAlive (name, value)
        entry).2.2 other isField
    subst named
    have stored := Std.ExtTreeMap.mem_toList_iff_getElem?_eq_some.mp entry
    rw [declared] at stored
    rw [Option.some.inj stored]
  cases found :
      ((response.complete keepAlive).headers.toList.map headerLine).find?
        fun line => IsField (ascii "Content-Length") line with
  | none =>
      have absent := List.find?_eq_none.mp found _ written
      rw [decide_eq_true_eq, IsField, before_headerLine] at absent
      exact absurd (by decide) absent
  | some line =>
      have isField := List.find?_some found
      obtain rfl :=
        only line (List.mem_of_find?_eq_some found)
          (of_decide_eq_true isField)
      have value :
          (after colon (headerLine
              (ascii "Content-Length",
                StdString.ofNat response.body.length))).dropWhile (· = 32) =
            StdString.ofNat response.body.length := by
        have cut :
            headerLine
                (ascii "Content-Length",
                  StdString.ofNat response.body.length) =
              ascii "Content-Length" ++
                colon :: 32 :: StdString.ofNat response.body.length := by
          have mark : ascii ": " = [colon, 32] := by decide
          simp [headerLine, mark]
        rw [cut, after_append_cons (by decide),
          List.dropWhile_cons_of_pos (by decide)]
        cases digits : StdString.ofNat response.body.length with
        | nil => rfl
        | cons digit digits' =>
            apply List.dropWhile_cons_of_neg
            have range : 48 ≤ digit ∧ digit ≤ 57 :=
              StdString.mem_ofNat (by rw [digits]; simp)
            rw [decide_eq_true_eq]
            rintro rfl
            exact absurd range.1 (by decide)
      rw [contentLength, found, Option.bind_some, value, readNat_ofNat]

end HttpResponse

variable {llhttp : Llhttp} [Json J]

/-! ## The responses the client should read -/

/--
A text, JSON or binary body as the setters of `HttpBody` leave it, or
none.
-/
structure HttpBody.Sendable (body : HttpBody J) : Prop where
  notForm : body.type ≠ .formData
  notMultipart : body.type ≠ .multipart
  json : body.type = .json → Json.dump body.jsonData = .ok body.rawData

/-- A sendable body is written, and its length is the declared one. -/
theorem HttpBody.Sendable.written
    {response : HttpResponse J} (sendable : response.body.Sendable) :
    ∃ text, response.bodySection = .ok text ∧
      text.length = response.body.length := by
  rcases sendable with ⟨notForm, notMultipart, json⟩
  unfold HttpResponse.bodySection HttpBody.length
  cases kind : response.body.type with
  | empty => exact ⟨_, rfl, rfl⟩
  | text => exact ⟨_, rfl, rfl⟩
  | binary => exact ⟨_, rfl, rfl⟩
  | json => exact ⟨_, json kind, rfl⟩
  | formData => exact absurd kind notForm
  | multipart => exact absurd kind notMultipart

/--
A response with the protocol of `handleRequest`, plain headers and a
sendable body.
-/
structure HttpResponse.Presentable (response : HttpResponse J) : Prop where
  protocol : response.protocol = ascii "HTTP/1.1"
  plain : response.PlainHeaders
  sendable : response.body.Sendable

/--
A request, what the chain left of it and of the response, and the
response that was sent.
-/
structure Answered (server : Server J A) extends Turn J where
  memory : Int
  shouldClose : Bool
  app : A
  left : Traced PlusWeb.Event (Exchange J A)
  returned :
    server.setup.runChain server.callbacks
        ⟨⟨request, HttpResponse.fresh, app⟩, []⟩ =
      (.returned, left)
  replied :
    (handleRequest server.setup server.callbacks memory request keepAlive
        shouldClose app).reply = .ok (head, body)
  presentable : left.state.res.Presentable

/-- A turn of a server whose chain leaves presentable responses. -/
theorem Turn.Answers.answered
    {server : Server J A} {turn : Turn J} (answers : turn.Answers server)
    (presentable :
      ∀ app left,
        server.setup.runChain server.callbacks
            ⟨⟨turn.request, HttpResponse.fresh, app⟩, []⟩ =
          (.returned, left) → left.state.res.Presentable) :
    ∃ answer : Answered server, answer.toTurn = turn := by
  rcases answers with ⟨memory, shouldClose, app, replied⟩
  cases ran :
      server.setup.runChain server.callbacks
        ⟨⟨turn.request, HttpResponse.fresh, app⟩, []⟩ with
  | mk outcome left =>
  cases outcome with
  | threw exception =>
      rw [handleRequest, ran] at replied
      cases replied
  | returned =>
      exact
        ⟨{ toTurn := turn
           memory := memory
           shouldClose := shouldClose
           app := app
           left := left
           returned := ran
           replied := replied
           presentable := presentable app left ran }, rfl⟩

/-- All turns of an open connection of such a server. -/
theorem exists_answered
    {server : Server J A}
    (presentable :
      ∀ request app left,
        server.setup.runChain server.callbacks
            ⟨⟨request, HttpResponse.fresh, app⟩, []⟩ =
          (.returned, left) → left.state.res.Presentable)
    {start : Conn llhttp J A} {events : List (Conn.Event A)}
    {turns : List (Turn J)} {rejection : Option StdString}
    (orderly : start.Orderly server events turns rejection)
    (live : (start.run server events).session.live = true) :
    ∃ answers : List (Answered server),
      answers.map Answered.toTurn = turns ∧
        (start.run server events).session.log =
          answers.flatMap fun answer => answer.entries := by
  have each :
      ∃ answers : List (Answered server),
        answers.map Answered.toTurn = turns := by
    have all := orderly.answers
    clear orderly
    induction turns with
    | nil => exact ⟨[], rfl⟩
    | cons turn turns induction =>
        rcases List.forall_mem_cons.mp all with ⟨own, others⟩
        rcases own.answered (presentable turn.request) with ⟨answer, rfl⟩
        rcases induction others with ⟨answers, rfl⟩
        exact ⟨answer :: answers, rfl⟩
  rcases each with ⟨answers, same⟩
  refine ⟨answers, same, ?_⟩
  rw [orderly.log, (orderly.proceeds live).2, ← same, List.flatMap_map]
  exact List.append_nil _

namespace Answered

variable {server : Server J A} (answer : Answered server)

/-- The response with the headers of `handleRequest`. -/
def response : HttpResponse J :=
  answer.left.state.res.complete answer.keepAlive

/-- The status on the status line. -/
def status : Int := answer.response.status.getD answer.memory

/-- The declared length. -/
def declared : Nat := answer.left.state.res.body.length

/-- The server leaves out the body. -/
def LeavesOut : Prop := answer.left.state.req.method = ascii "HEAD"

instance : Decidable answer.LeavesOut :=
  inferInstanceAs (Decidable (_ = _))

/-- The client expects no body. -/
def Unexpected : Prop :=
  answer.request.method = ascii "HEAD" ∨ Bodyless answer.status.toNat

instance : Decidable answer.Unexpected :=
  inferInstanceAs (Decidable (_ ∨ _))

/-- The text behind the head. -/
def text : StdString :=
  if answer.LeavesOut then []
  else (answer.left.state.res.bodySection.toOption).getD []

/--
The response as the client should read it: the lines of the head, and the
text of the body.
-/
def read : List StdString × StdString :=
  (answer.response.headLines answer.memory, answer.text)

/--
The body is left out exactly if the client expects none, unless it is
empty; and the buffers hold the response.
-/
structure Delimited : Prop where
  expected : answer.declared ≠ 0 → (answer.LeavesOut ↔ answer.Unexpected)
  fits : Session.Fits (answer.head, answer.body)

instance : Decidable answer.Delimited :=
  decidable_of_iff
    ((answer.declared ≠ 0 → (answer.LeavesOut ↔ answer.Unexpected)) ∧
      Session.Fits (answer.head, answer.body))
    ⟨fun ⟨expected, fits⟩ => ⟨expected, fits⟩,
      fun ⟨expected, fits⟩ => ⟨expected, fits⟩⟩

theorem text_length :
    answer.text.length = if answer.LeavesOut then 0 else answer.declared := by
  rcases answer.presentable.sendable.written with ⟨written, made, length⟩
  unfold text
  split
  · rfl
  · rw [made]
    exact length

/-- The head and the body together are the head section and the text. -/
theorem bytes :
    answer.head ++ answer.body =
      answer.response.headSection answer.memory ++ answer.text := by
  rcases answer.presentable.sendable.written with ⟨text, written, -⟩
  have serialized :
      answer.response.serialize answer.memory kCoalesceBelow
          (decide (¬ answer.LeavesOut)) =
        .ok (answer.head, answer.body) := by
    have replied :
        (answer.response.serialize answer.memory kCoalesceBelow
          (decide (¬ answer.LeavesOut))).mapError
            CxxException.stdException = .ok (answer.head, answer.body) :=
      (handleRequest_reply answer.returned).symm.trans answer.replied
    cases made :
        answer.response.serialize answer.memory kCoalesceBelow
          (decide (¬ answer.LeavesOut)) with
    | error what =>
        rw [made] at replied
        cases replied
    | ok reply =>
        rw [made] at replied
        exact congrArg _ (Except.ok.inj replied)
  by_cases leaves : answer.LeavesOut
  · have whole : answer.text = [] := if_pos leaves
    rw [decide_eq_false (not_not.mpr leaves)] at serialized
    simp only [HttpResponse.serialize, Bool.false_eq_true, ↓reduceIte,
      Except.ok.injEq, Prod.mk.injEq] at serialized
    rw [whole, ← serialized.1, ← serialized.2]
  · have whole : answer.text = text := by
      rw [Answered.text, if_neg leaves, written]
      rfl
    obtain ⟨head, body, made, cut⟩ :=
      @HttpResponse.serialize_append _ _ answer.response _ written
        answer.memory kCoalesceBelow
    rw [decide_eq_true leaves, made] at serialized
    rcases Prod.mk.inj (Except.ok.inj serialized) with ⟨rfl, rfl⟩
    rw [cut, whole]

/-- The answer as a message for the client. -/
def frame : Frame UInt8 StdString (List StdString) where
  message := answer.request.method
  info := answer.response.headLines answer.memory
  head := answer.response.headSection answer.memory
  body := answer.text

theorem headRead : answer.frame.HeadRead httpClient := by
  intro rest
  have plain :=
    HttpResponse.plainHeaders_complete answer.presentable.plain answer.keepAlive
  apply LineBlock.read_write (by decide)
    (answer.response.headLines_ne_nil answer.memory)
  intro line member
  rcases List.mem_cons.mp member with rfl | header
  · exact HttpResponse.crlfFree_statusLine answer.presentable.protocol answer.memory
  · rcases List.mem_map.mp header with ⟨⟨name, value⟩, entry, rfl⟩
    apply (HttpResponse.crlfFree_headerLine name value).mpr
    exact ⟨(plain (name, value) entry).1, (plain (name, value) entry).2.1⟩

/-- The number of bytes the client takes for the body. -/
theorem bodyBytes_eq :
    bodyBytes answer.request.method
        (answer.response.headLines answer.memory) =
      some (if answer.Unexpected then 0 else answer.declared) := by
  have bodyless :
      (∃ status ∈ statusCode (answer.response.statusLine answer.memory),
          Bodyless status) ↔ Bodyless answer.status.toNat := by
    have read :
        statusCode (answer.response.statusLine answer.memory) =
          if 0 ≤ answer.status then some answer.status.toNat else none :=
      HttpResponse.statusCode_statusLine answer.presentable.protocol answer.memory
    rw [read]
    split
    · simp
    · next negative =>
      have zero : answer.status.toNat = 0 :=
        Int.toNat_of_nonpos (by omega)
      rw [zero]
      simp [Bodyless]
  have fields :
      contentLength
          (answer.response.headers.toList.map HttpResponse.headerLine) =
        some answer.declared :=
    HttpResponse.contentLength_complete answer.presentable.plain answer.keepAlive
  simp only [HttpResponse.headLines, bodyBytes, bodyless, fields]
  by_cases unexpected : answer.Unexpected
  · rw [if_pos unexpected]
    exact if_pos unexpected
  · rw [if_neg unexpected]
    exact if_neg unexpected

/-- The client takes exactly the body. -/
theorem counted_iff :
    bodyBytes answer.request.method
        (answer.response.headLines answer.memory) =
        some answer.text.length ↔
      (answer.declared ≠ 0 → (answer.LeavesOut ↔ answer.Unexpected)) := by
  rw [bodyBytes_eq, text_length, Option.some.injEq]
  by_cases leaves : answer.LeavesOut <;>
    by_cases unexpected : answer.Unexpected <;>
      simp [leaves, unexpected, eq_comm]

end Answered

/--
A client on an open connection reads back exactly the responses sent, in
order, if and only if each of them is delimited.
-/
theorem self_delimiting_iff
    {server : Server J A} {app : A} {events : List (Conn.Event A)}
    {answers : List (Answered server)}
    (logged :
      ((Conn.new llhttp app).run server events).session.log =
        answers.flatMap fun answer => answer.entries)
    (isOpen :
      ((Conn.new llhttp app).run server events).session.closing = false) :
    httpClient.readAll (answers.map fun answer => answer.request.method)
        (((Conn.new llhttp app).run server events).session.stream.accepted ++
          ((Conn.new llhttp app).run server events).session.stream.queue) =
        some (answers.map Answered.read) ↔
      ∀ answer ∈ answers, answer.Delimited := by
  have responses :
      ((Conn.new llhttp app).run server events).session.responses =
        answers.map fun answer => (answer.head, answer.body) := by
    rw [Session.responses, logged]
    clear logged
    induction answers with
    | nil => rfl
    | cons answer answers induction =>
        rw [List.flatMap_cons, List.filterMap_append, induction]
        rfl
  have buffered := Conn.handed_run server app events isOpen
  rw [responses] at buffered
  rw [buffered]
  have texts :
      (answers.map fun answer => (answer.head, answer.body)).flatMap
          (fun response => response.1 ++ response.2) =
        (answers.map Answered.frame).flatMap Frame.text := by
    rw [List.flatMap_map, List.flatMap_map]
    exact List.flatMap_congr fun answer _ => answer.bytes
  have exact_ :
      httpClient.readAll (answers.map fun answer => answer.request.method)
          ((answers.map Answered.frame).flatMap Frame.text) =
          some (answers.map Answered.read) ↔
        ∀ answer ∈ answers,
          answer.declared ≠ 0 →
            (answer.LeavesOut ↔ answer.Unexpected) := by
    have headsRead :
        ∀ frame ∈ answers.map Answered.frame,
          frame.HeadRead httpClient := by
      intro frame member
      rcases List.mem_map.mp member with ⟨answer, -, rfl⟩
      exact answer.headRead
    have framed := readAll_iff headsRead
    rw [List.map_map, List.map_map, List.forall_mem_map] at framed
    refine framed.trans (forall₂_congr fun answer _ => ?_)
    exact answer.counted_iff
  constructor
  · intro read
    have sound :
        ∀ text info rest, httpClient.head text = some (info, rest) →
          text = LineBlock.write 13 10 info ++ rest :=
      fun text info rest found => text_of_read found
    have written := text_of_readAll sound read
    have whole :
        (answers.map Answered.read).flatMap
            (fun part => LineBlock.write 13 10 part.1 ++ part.2) =
          (answers.map Answered.frame).flatMap Frame.text := by
      rw [List.flatMap_map, List.flatMap_map]
      rfl
    have fits :=
      (Session.flatMap_buffers _).2
        (by rw [texts, ← whole, ← written])
    rw [written, whole, exact_] at read
    exact fun answer member =>
      ⟨read answer member, fits _ (List.mem_map_of_mem member)⟩
  · intro delimited
    have fits :
        (answers.map fun answer => (answer.head, answer.body)).flatMap
            (fun response => Session.buffers response.1 response.2) =
          (answers.map fun answer => (answer.head, answer.body)).flatMap
            fun response => response.1 ++ response.2 := by
      apply List.flatMap_congr
      intro response member
      rcases List.mem_map.mp member with ⟨answer, answered, rfl⟩
      exact Session.buffers_eq (delimited answer answered).fits
    rw [fits, texts, exact_]
    exact fun answer member => (delimited answer member).expected

/-! ## A server that answers every request alike -/

/-- Every request is answered with this status and a text. -/
def statusServer (status : Int) : Server FlatJson Unit where
  setup := Setup.build [.use .server]
  callbacks :=
    { middleware := fun _ =>
        .work
          (fun exchange =>
            exchange.setRes
              ((exchange.res.setStatus status).sendText (ascii "hi")))
          fun _ => .done
      handler := fun _ => Action.skip }
  memory _ := 0
  kernel _ := .takes 65536

/-- Two pipelined requests. -/
def pipelinedReads : List (Conn.Event Unit) :=
  [.read (ascii "GET / HTTP/1.1\r\n\r\nHEAD / HTTP/1.1\r\n\r\n")]

namespace statusServer

variable (status : Int)

/-- What the chain leaves of an exchange. -/
theorem left_eq
    {request : HttpRequest FlatJson} {app : Unit}
    {left : Traced PlusWeb.Event (Exchange FlatJson Unit)}
    (returned :
      (statusServer status).setup.runChain (statusServer status).callbacks
          ⟨⟨request, HttpResponse.fresh, app⟩, []⟩ =
        (.returned, left)) :
    left.state =
      ⟨request, (HttpResponse.fresh.setStatus status).sendText (ascii "hi"),
        app⟩ :=
  (congrArg (fun run => run.2.state) returned).symm

theorem presentable
    (request : HttpRequest FlatJson) (app : Unit)
    (left : Traced PlusWeb.Event (Exchange FlatJson Unit))
    (returned :
      (statusServer status).setup.runChain (statusServer status).callbacks
          ⟨⟨request, HttpResponse.fresh, app⟩, []⟩ =
        (.returned, left)) :
    left.state.res.Presentable := by
  rw [left_eq status returned]
  constructor
  · rfl
  · show HttpResponse.PlainHeaders
      ((HttpResponse.fresh.setStatus 0).sendText (ascii "hi") :
        HttpResponse FlatJson)
    decide +kernel
  · constructor <;> simp [HttpResponse.sendText, HttpBody.setText]

/-- The answers to the pipelined requests. -/
theorem exists_answers
    (serves :
      Conn.Serves (statusServer status) helloConn
        (.read (ascii "GET / HTTP/1.1\r\n\r\nHEAD / HTTP/1.1\r\n\r\n")))
    (live :
      (helloConn.run (statusServer status) pipelinedReads).session.live =
        true)
    (entries :
      (helloConn.run (statusServer status)
        pipelinedReads).session.log.length = 4) :
    ∃ first second : Answered (statusServer status),
      (helloConn.run (statusServer status) pipelinedReads).session.log =
        [first, second].flatMap fun answer => answer.entries := by
  obtain ⟨turns, rejection, orderly⟩ :
      ∃ turns rejection,
        helloConn.Orderly (statusServer status) pipelinedReads turns
          rejection :=
    Conn.orderly_run bodilessRequests_closes rfl ⟨serves, trivial⟩
  obtain ⟨answers, -, logged⟩ :=
    exists_answered (presentable status) orderly live
  have counted :
      (answers.flatMap fun answer => answer.entries).length =
        2 * answers.length := by
    simp [List.length_flatMap, Turn.entries, Nat.mul_comm]
  have two : answers.length = 2 := by
    rw [logged, counted] at entries
    omega
  rcases List.length_eq_two.mp two with ⟨first, second, rfl⟩
  exact ⟨first, second, logged⟩

end statusServer

/-- Responses to `GET` and `HEAD` with status 200. -/
theorem self_delimiting_iff_ok :
    ∃ first second : Answered (statusServer 200),
      httpClient.readAll [first.request.method, second.request.method]
          ((helloConn.run (statusServer 200)
              pipelinedReads).session.stream.accepted ++
            (helloConn.run (statusServer 200)
              pipelinedReads).session.stream.queue) =
        some [first.read, second.read] := by
  obtain ⟨first, second, logged⟩ :=
    statusServer.exists_answers 200
      (fun _ => ⟨by decide +kernel, by decide +kernel, by decide +kernel⟩)
      (by decide +kernel) (by decide +kernel)
  have isOpen :
      (helloConn.run (statusServer 200) pipelinedReads).session.closing =
        false := by
    decide +kernel
  unfold helloConn at logged isOpen ⊢
  refine ⟨first, second, (self_delimiting_iff logged isOpen).mpr ?_⟩
  intro answer _
  have left := statusServer.left_eq 200 answer.returned
  have response :
      answer.response =
        ((HttpResponse.fresh.setStatus 200).sendText
          (ascii "hi")).complete answer.keepAlive := by
    rw [Answered.response, left]
  constructor
  · intro _
    have status : answer.status = 200 := by
      rw [Answered.status, response]
      rfl
    unfold Answered.LeavesOut Answered.Unexpected
    rw [left, status]
    simp [Bodyless]
  · have head :
        (answer.response.headSection answer.memory).length < 1000 := by
      have assigned :
          answer.response.headSection answer.memory =
            answer.response.headSection 0 := by
        rw [response]
        rfl
      rw [assigned, response]
      cases answer.keepAlive <;> decide +kernel
    have text : answer.text.length ≤ 2 := by
      rw [Answered.text_length, Answered.declared, left]
      split
      · exact Nat.zero_le 2
      · exact le_refl 2
    have whole := congrArg List.length answer.bytes
    rw [List.length_append, List.length_append] at whole
    constructor
    · show answer.head.length < 2 ^ 32
      omega
    · show answer.body.length < 2 ^ 32
      omega

/--
The lines of a response with status 204, the first one behind some
bytes.
-/
def noContentLines (stray : StdString) : List StdString :=
  [stray ++ ascii "HTTP/1.1 204 No Content", ascii "Connection: keep-alive",
    ascii "Content-Length: 2",
    ascii "Content-Type: text/html; charset=utf-8"]

/--
What a client reads of two responses with status 204, of which the first
has a body.
-/
theorem readAll_noContent (method method' : StdString) :
    httpClient.readAll [method, method']
        (LineBlock.write 13 10 (noContentLines []) ++ ascii "hi" ++
          LineBlock.write 13 10 (noContentLines [])) =
      some [(noContentLines [], []), (noContentLines (ascii "hi"), [])] := by
  have noBody (stray method : StdString)
      (noContent :
        statusCode (stray ++ ascii "HTTP/1.1 204 No Content") = some 204) :
      httpClient.count method (noContentLines stray) = some 0 :=
    bodyBytes_of_bodyless noContent (by decide) method _
  have first :
      httpClient.head
          (LineBlock.write 13 10 (noContentLines []) ++ ascii "hi" ++
            LineBlock.write 13 10 (noContentLines [])) =
        some
          (noContentLines [],
            LineBlock.write 13 10 (noContentLines (ascii "hi"))) := by
    apply httpClient_head
    decide +kernel
  have second :
      httpClient.head (LineBlock.write 13 10 (noContentLines (ascii "hi"))) =
        some (noContentLines (ascii "hi"), []) := by
    apply httpClient_head
    decide +kernel
  rw [readAll_step first (noBody [] method (by decide +kernel))
      (Nat.zero_le _),
    List.drop_zero,
    readAll_step second (noBody (ascii "hi") method' (by decide +kernel))
      (Nat.zero_le _)]
  rfl

/--
The text of a response with status 204 is read as the beginning of the
next status line.
-/
theorem stray_body_read :
    ¬ ∀ (server : Server FlatJson Unit) (events : List (Conn.Event Unit))
        (answers : List (Answered server)),
        (helloConn.run server events).session.log =
            answers.flatMap (fun answer => answer.entries) →
          (helloConn.run server events).session.closing = false →
            httpClient.readAll
                (answers.map fun answer => answer.request.method)
                ((helloConn.run server events).session.stream.accepted ++
                  (helloConn.run server events).session.stream.queue) =
              some (answers.map Answered.read) := by
  intro claim
  obtain ⟨first, second, logged⟩ :=
    statusServer.exists_answers 204
      (fun _ => ⟨by decide +kernel, by decide +kernel, by decide +kernel⟩)
      (by decide +kernel) (by decide +kernel)
  have read :=
    claim (statusServer 204) pipelinedReads [first, second] logged
      (by decide +kernel)
  have sent :
      (helloConn.run (statusServer 204)
            pipelinedReads).session.stream.accepted ++
          (helloConn.run (statusServer 204)
            pipelinedReads).session.stream.queue =
        LineBlock.write 13 10 (noContentLines []) ++ ascii "hi" ++
          LineBlock.write 13 10 (noContentLines []) := by
    decide +kernel
  rw [sent, List.map_cons, List.map_cons, List.map_nil,
    readAll_noContent] at read
  have statusLine :
      ascii "hi" ++ ascii "HTTP/1.1 204 No Content" =
        second.response.statusLine second.memory := by
    simp only [Option.some.injEq, List.map_cons, List.cons.injEq] at read
    exact (List.cons.inj (Prod.mk.inj read.2.1).1).1
  have protocol : second.response.protocol = ascii "HTTP/1.1" :=
    second.presentable.protocol
  have letter := congrArg List.head? statusLine
  rw [HttpResponse.statusLine, protocol] at letter
  revert letter
  simp [ascii]

end PlusWeb
