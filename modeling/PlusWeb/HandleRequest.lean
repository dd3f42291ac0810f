import PlusWeb.Routing

/-!
# `HttpServer::handleRequest`

One request, from the fresh response object to the bytes handed to `send`.
The value an uninitialised `$status` happens to have is a parameter, so that
two runs can be compared.

A response whose status nobody assigned reaches the status line.  The bytes
depend on the memory exactly in the runs that return normally with an
unassigned status and serialize it.
-/

namespace PlusWeb

variable {J A : Type} [Json J]

/-- `Loop::kCoalesceBelow`. -/
def kCoalesceBelow : Nat := 64 * 1024

/-- The response object as `handleRequest` sets it up. -/
def HttpResponse.fresh : HttpResponse J :=
  { HttpResponse.new with protocol := ascii "HTTP/1.1" }

/-- The headers `handleRequest` writes after the chain. -/
def HttpResponse.complete (response : HttpResponse J) (keepAlive : Bool) :
    HttpResponse J :=
  (response.setHeader (ascii "Connection")
    (if keepAlive then ascii "keep-alive" else ascii "close")).setHeader
      (ascii "Content-Length") (StdString.ofNat response.body.length)

/--
What a call of `handleRequest` leaves: `head` and `body`, or the
exception; the flag `shouldClose`; and the program's own data.
-/
structure Served (A : Type) where
  reply : Except CxxException (StdString × StdString)
  shouldClose : Bool
  app : A

/-- `HttpServer::handleRequest`. -/
def handleRequest
    (setup : Setup) (callbacks : Callbacks J A) (memory : Int)
    (request : HttpRequest J) (keepAlive shouldClose : Bool) (app : A) :
    Served A :=
  match setup.runChain callbacks ⟨⟨request, HttpResponse.fresh, app⟩, []⟩ with
  | (.threw exception, traced) =>
      { reply := .error exception
        shouldClose := shouldClose
        app := traced.state.app }
  | (.returned, traced) =>
      let response := traced.state.res.complete keepAlive
      let includeBody := decide (traced.state.req.method ≠ ascii "HEAD")
      { reply :=
          (response.serialize memory kCoalesceBelow includeBody).mapError
            CxxException.stdException
        shouldClose := !keepAlive
        app := traced.state.app }

/--
`HttpServer::errorResponse`.  The status is assigned, so what the memory
holds plays no part.
-/
def errorResponse (J : Type) [Json J] (status : Int) :
    Except CxxException StdString :=
  let response : HttpResponse J := HttpResponse.fresh.setStatus status
  match
    response.sendJson
      (Json.object
        [(ascii "error", HttpResponse.getResponseMessage status)]) with
  | (.threw exception, _) => .error exception
  | (.returned, response) =>
      ((response.complete false).prepareResponse 0).mapError
        CxxException.stdException

/-- The reply after a chain that returned. -/
theorem handleRequest_reply
    {setup : Setup} {callbacks : Callbacks J A} {memory : Int}
    {request : HttpRequest J} {keepAlive shouldClose : Bool} {app : A}
    {traced : Traced Event (Exchange J A)}
    (returned :
      setup.runChain callbacks ⟨⟨request, HttpResponse.fresh, app⟩, []⟩ =
        (.returned, traced)) :
    (handleRequest setup callbacks memory request keepAlive shouldClose
        app).reply =
      ((traced.state.res.complete keepAlive).serialize memory kCoalesceBelow
        (decide (traced.state.req.method ≠ ascii "HEAD"))).mapError
          CxxException.stdException := by
  rw [handleRequest, returned]

namespace HttpResponse

omit [Json J] in
@[simp]
theorem complete_status (response : HttpResponse J) (keepAlive : Bool) :
    (response.complete keepAlive).status = response.status := rfl

omit [Json J] in
@[simp]
theorem complete_body (response : HttpResponse J) (keepAlive : Bool) :
    (response.complete keepAlive).body = response.body := rfl

/-! ## The status line and the memory -/

/-- Once the status is assigned, the memory plays no part. -/
theorem serialize_assigned
    {response : HttpResponse J} {status : Int}
    (assigned : response.status = some status)
    (memory memory' : Int) (splitAbove : Nat) (includeBody : Bool) :
    response.serialize memory splitAbove includeBody =
      response.serialize memory' splitAbove includeBody := by
  have same : response.headSection memory = response.headSection memory' := by
    simp [headSection, headLines, statusLine, assigned]
  simp only [serialize, same]

omit [Json J] in
/-- The head begins with the protocol, a space and the status. -/
theorem headSection_eq (response : HttpResponse J) (memory : Int) :
    ∃ rest,
      response.headSection memory =
        response.protocol ++ ascii " " ++
          (StdString.ofInt (response.status.getD memory) ++ rest) := by
  refine
    ⟨ascii " " ++
      getResponseMessage (response.status.getD memory) ++ crlf ++
        (response.headers.toList.map headerLine).flatMap (· ++ crlf) ++
          crlf, ?_⟩
  simp [headSection, headLines, statusLine]

omit [Json J] in
/--
An unassigned status puts different digits on the line for different
memory.
-/
theorem headSection_unassigned
    {response : HttpResponse J} (unassigned : response.status = none)
    (tail tail' : StdString) :
    response.headSection 0 ++ tail ≠ response.headSection 1 ++ tail' := by
  intro same
  rcases response.headSection_eq 0 with ⟨rest, zero⟩
  rcases response.headSection_eq 1 with ⟨rest', one⟩
  have first : StdString.ofInt 0 = [48] := by decide
  have second : StdString.ofInt 1 = [49] := by decide +kernel
  simp [zero, one, unassigned, first, second] at same

/--
Serializing an unassigned status gives different bytes for different
memory, unless it throws.
-/
theorem serialize_unassigned
    {response : HttpResponse J} (unassigned : response.status = none)
    (splitAbove : Nat) (includeBody : Bool)
    (same :
      response.serialize 0 splitAbove includeBody =
        response.serialize 1 splitAbove includeBody) :
    includeBody = true ∧ ∃ what, response.bodySection = .error what := by
  cases includeBody with
  | false =>
      have heads : response.headSection 0 = response.headSection 1 := by
        simpa [serialize] using same
      exact
        absurd (by simpa using heads)
          (headSection_unassigned unassigned [] [])
  | true =>
      cases found : response.bodySection with
      | error what => exact ⟨rfl, what, rfl⟩
      | ok text =>
          simp only [serialize, found, ↓reduceIte] at same
          split at same
          · have heads : response.headSection 0 = response.headSection 1 := by
              simpa using same
            exact
              absurd (by simpa using heads)
                (headSection_unassigned unassigned [] [])
          · have heads :
                response.headSection 0 ++ text =
                  response.headSection 1 ++ text := by
              simpa using same
            exact absurd heads (headSection_unassigned unassigned text text)

end HttpResponse

omit [Json J] in
theorem mapError_inj
    {α ε ε' : Type} {wrap : ε → ε'} (injective : Function.Injective wrap)
    {first second : Except ε α}
    (same : first.mapError wrap = second.mapError wrap) :
    first = second := by
  cases first <;> cases second <;> simp [Except.mapError] at same ⊢
  · exact injective same
  · exact same

/--
The reply never depends on the memory of the fresh `$status` exactly if
the chain throws, or leaves an assigned status, or the body cannot be
serialized.
-/
theorem reply_memory_independent_iff
    (setup : Setup) (callbacks : Callbacks J A)
    (request : HttpRequest J) (keepAlive shouldClose : Bool) (app : A) :
    (∀ memory memory',
        (handleRequest setup callbacks memory request keepAlive shouldClose
            app).reply =
          (handleRequest setup callbacks memory' request keepAlive
            shouldClose app).reply) ↔
      let (outcome, traced) :=
        setup.runChain callbacks ⟨⟨request, HttpResponse.fresh, app⟩, []⟩
      outcome ≠ .returned ∨ traced.state.res.status ≠ none ∨
        traced.state.req.method ≠ ascii "HEAD" ∧
          ∃ what, traced.state.res.bodySection = .error what := by
  cases chain :
      setup.runChain callbacks ⟨⟨request, HttpResponse.fresh, app⟩, []⟩ with
  | mk outcome traced =>
  cases outcome with
  | threw exception => simp [handleRequest, chain]
  | returned =>
      simp only [handleRequest_reply chain, ne_eq, not_true_eq_false,
        false_or]
      constructor
      · intro same
        by_cases unassigned : traced.state.res.status = none
        · right
          have equal :=
            mapError_inj (fun _ _ => CxxException.stdException.inj)
              (same 0 1)
          have unassigned' :
              (traced.state.res.complete keepAlive).status = none :=
            unassigned
          obtain ⟨notHead, what, failed⟩ :=
            HttpResponse.serialize_unassigned unassigned' _ _ equal
          exact ⟨by simpa using notHead, what, failed⟩
        · exact Or.inl unassigned
      · rintro (assigned | ⟨notHead, what, failed⟩) memory memory'
        · rcases Option.ne_none_iff_exists'.mp assigned with ⟨status, assigned⟩
          have assigned' :
              (traced.state.res.complete keepAlive).status = some status :=
            assigned
          rw [HttpResponse.serialize_assigned assigned' memory memory']
        · have failed' :
              (traced.state.res.complete keepAlive).bodySection =
                .error what := failed
          simp [HttpResponse.serialize, failed', notHead]

/-- A server with one route. -/
def helloSetup : Setup :=
  Setup.build [.route .server .GET (ascii "/") true]

/-- Callbacks whose handlers only send a text. -/
def helloCallbacks : Callbacks FlatJson Unit where
  middleware _ := Script.done
  handler _ := Action.modify fun exchange =>
    exchange.setRes (exchange.res.sendText (ascii "hi"))

/-- A handler that sends without a status. -/
theorem reply_memory_dependent :
    (handleRequest helloSetup helloCallbacks 0
        (Exchange.arriving (ascii "GET") (ascii "/")).req true false
        ()).reply.toOption ≠
      (handleRequest helloSetup helloCallbacks 1
        (Exchange.arriving (ascii "GET") (ascii "/")).req true false
        ()).reply.toOption := by
  decide +kernel

end PlusWeb
