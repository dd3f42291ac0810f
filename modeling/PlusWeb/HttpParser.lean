import PlusWeb.RequestTarget
import PlusWeb.Library.Action
import PlusWeb.Library.Fragments

/-!
# `HttpParser`: from callbacks to requests

llhttp is outside the repository.  Here it is a state with one operation:
for some bytes, the callbacks it makes as long as each returns zero, and the
error code it then ends with.  A callback that returns nonzero ends the call
with an error, and what llhttp does after that is never used: the header
file tells callers to reply and close when `execute` fails.

`Impl` collects the spans of one request and calls the handler at its end.
Its callbacks run in a monad that stops at the first failure and threads the
state the handler works on.
-/

namespace PlusWeb

variable {J : Type} [Json J] {τ : Type}

/-! ## llhttp -/

/-- `llhttp_errno_t`, as far as the program distinguishes the codes. -/
inductive Errno where
  | ok
  | pausedUpgrade
  | closedConnection
  | other (name : StdString)
deriving DecidableEq, Repr

/-- `llhttp_errno_name`. -/
def Errno.name : Errno → StdString
  | .ok => ascii "HPE_OK"
  | .pausedUpgrade => ascii "HPE_PAUSED_UPGRADE"
  | .closedConnection => ascii "HPE_CLOSED_CONNECTION"
  | .other name => name

/-- What llhttp knows of a complete message. -/
structure MessageInfo where
  method : StdString
  httpMajor : Nat
  httpMinor : Nat
  shouldKeepAlive : Bool
deriving DecidableEq, Repr

/-- The callbacks the program sets. -/
inductive Callback where
  | url (span : StdString)
  | headerField (span : StdString)
  | headerValue (span : StdString)
  | headersComplete
  | body (span : StdString)
  | messageComplete (info : MessageInfo)
deriving DecidableEq, Repr

/--
The callbacks of one `llhttp_execute` as long as they return zero, how it
ends, and the state it leaves.
-/
structure Llhttp.Result (State : Type) where
  callbacks : List Callback
  errno : Errno
  reason : StdString
  next : State

/-- `llhttp_init` and `llhttp_execute`. -/
structure Llhttp where
  State : Type
  init : State
  execute : State → StdString → Llhttp.Result State

/-! ## The state of a request -/

/-- Why a callback returned nonzero, or which exception left it. -/
inductive Stop where
  | failed (failure : StdString) (headerLimitHit : Bool)
  | escaped (exception : CxxException)
deriving DecidableEq

/-- What the callbacks run in. -/
abbrev ParserM (τ : Type) := ExceptT Stop (StateM τ)

/-- `HttpParser::RequestHandler`. -/
abbrev RequestHandler (J τ : Type) :=
  HttpRequest J → Bool → Action CxxException τ

/--
`HttpParser::Impl`.  `failure` and `headerLimitHit`, which every
`execute` clears, are part of `Stop`.
-/
structure Impl where
  target : StdString
  field : StdString
  value : StdString
  body : StdString
  headers : StdMap
  readingValue : Bool
  maxHeaderBytes : Nat
  headerBytes : Nat
deriving DecidableEq

/-- `HttpParser::kMaxHeaderBytes`. -/
def kMaxHeaderBytes : Nat := 16 * 1024

namespace Impl

/-- The state of a new parser. -/
def new (maxHeaderBytes : Nat) : Impl where
  target := []
  field := []
  value := []
  body := []
  headers := ∅
  readingValue := false
  maxHeaderBytes := maxHeaderBytes
  headerBytes := 0

/-- `Impl::commitHeader`. -/
def commitHeader (impl : Impl) : Impl :=
  let headers :=
    if impl.field ≠ [] then impl.headers.insert impl.field impl.value
    else impl.headers
  { impl with headers := headers, field := [], value := [] }

/-- The failure of a request over the header budget. -/
def overBudget (maxHeaderBytes : Nat) : Stop :=
  .failed
    (ascii "header section exceeds " ++ StdString.ofNat maxHeaderBytes ++
      ascii " bytes")
    true

/-- Set the number of header bytes. -/
def setHeaderBytes (impl : Impl) (headerBytes : Nat) : Impl :=
  { impl with headerBytes := headerBytes }

@[simp]
theorem setHeaderBytes_headerBytes (impl : Impl) (headerBytes : Nat) :
    (impl.setHeaderBytes headerBytes).headerBytes = headerBytes := rfl

@[simp]
theorem setHeaderBytes_maxHeaderBytes (impl : Impl) (headerBytes : Nat) :
    (impl.setHeaderBytes headerBytes).maxHeaderBytes =
      impl.maxHeaderBytes := rfl

/-- `Impl::charge`, and going on if it returns true. -/
def charge (impl : Impl) (len : Nat) : ParserM τ Impl :=
  let impl := impl.setHeaderBytes (impl.headerBytes + len)
  if impl.headerBytes > impl.maxHeaderBytes then
    throw (overBudget impl.maxHeaderBytes)
  else pure impl

/-- `Impl::resetRequest`. -/
def resetRequest (impl : Impl) : Impl :=
  { impl with
    target := []
    field := []
    value := []
    body := []
    headers := ∅
    readingValue := false
    headerBytes := 0 }

/-- `Impl::onUrl`. -/
def onUrl (impl : Impl) (span : StdString) : ParserM τ Impl := do
  let impl ← impl.charge span.length
  pure { impl with target := impl.target ++ span }

/--
`Impl::onHeaderField`: a field span after a value span commits the
header.
-/
def onHeaderField (impl : Impl) (span : StdString) : ParserM τ Impl := do
  let impl ← impl.charge span.length
  let impl :=
    if impl.readingValue then { impl.commitHeader with readingValue := false }
    else impl
  pure { impl with field := impl.field ++ span }

/-- `Impl::onHeaderValue`. -/
def onHeaderValue (impl : Impl) (span : StdString) : ParserM τ Impl := do
  let impl ← impl.charge span.length
  pure { impl with readingValue := true, value := impl.value ++ span }

/-- `Impl::onHeadersComplete`. -/
def onHeadersComplete (impl : Impl) : ParserM τ Impl :=
  pure impl.commitHeader

/-- `Impl::onBody`. -/
def onBody (impl : Impl) (span : StdString) : ParserM τ Impl :=
  pure { impl with body := impl.body ++ span }

/--
The body of the request, and its headers afterwards: looking up a
missing `Content-Type` with `operator[]` adds it.
-/
def requestBody (impl : Impl) :
    Except CxxException (StdMap × HttpBody J) :=
  if impl.body = [] then .ok (impl.headers, HttpBody.new)
  else
    let contentType := impl.headers[ascii "Content-Type"]?.getD []
    let headers := impl.headers.insert (ascii "Content-Type") contentType
    if contentType = ascii "application/json" then
      match Json.parse impl.body with
      | .error what => .error (.stdException what)
      | .ok j =>
          match HttpBody.setJson j HttpBody.new with
          | (.returned, body) => .ok (headers, body)
          | (.threw exception, _) => .error exception
    else .ok (headers, HttpBody.new.setText impl.body)

/-- The request `onMessageComplete` builds. -/
def request (impl : Impl) (info : MessageInfo) :
    Except CxxException (HttpRequest J) := do
  let (headers, body) ← (impl.requestBody : Except _ (StdMap × HttpBody J))
  let request : HttpRequest J :=
    applyTarget impl.target
      { HttpRequest.new with
        method := info.method
        protocol :=
          ascii "HTTP/" ++ StdString.ofNat info.httpMajor ++ ascii "." ++
            StdString.ofNat info.httpMinor }
  pure { request with headers := headers, body := body }

/--
`catch (const std::exception& e)`: the failure with this text in front,
or an exception that is not caught.
-/
def caught (text : StdString) : CxxException → Stop
  | .stdException what => .failed (text ++ what) false
  | .other => .escaped .other

/-- `Impl::onMessageComplete`. -/
def onMessageComplete
    (handler : RequestHandler J τ) (impl : Impl) (info : MessageInfo) :
    ParserM τ Impl := do
  match (impl.request info : Except _ (HttpRequest J)) with
  | .error exception =>
      throw (caught (ascii "invalid JSON body: ") exception)
  | .ok request =>
      let outcome ←
        (modifyGet (handler request info.shouldKeepAlive) : StateM τ _)
      match outcome with
      | .returned => pure impl.resetRequest
      | .threw exception => throw (caught (ascii "handler threw: ") exception)

/-- One callback. -/
def on (handler : RequestHandler J τ) (impl : Impl) :
    Callback → ParserM τ Impl
  | .url span => impl.onUrl span
  | .headerField span => impl.onHeaderField span
  | .headerValue span => impl.onHeaderValue span
  | .headersComplete => impl.onHeadersComplete
  | .body span => impl.onBody span
  | .messageComplete info => impl.onMessageComplete handler info

end Impl

/-! ## The parser -/

/-- `class HttpParser`: the state of llhttp and the `Impl`. -/
structure HttpParser (llhttp : Llhttp) where
  state : llhttp.State
  impl : Impl

/--
How `HttpParser::execute` ends: it returns true, or it returns false with
`status()` and `error()`, or an exception passes through it.
-/
inductive Executed (llhttp : Llhttp) where
  | accepted (parser : HttpParser llhttp)
  | failed (status : Nat) (reason : StdString)
  | escaped (exception : CxxException)

namespace HttpParser

variable {llhttp : Llhttp}

/-- `HttpParser(size_t)`. -/
def new (llhttp : Llhttp) (maxHeaderBytes : Nat) : HttpParser llhttp where
  state := llhttp.init
  impl := Impl.new maxHeaderBytes

/-- `HttpParser::execute`, on the state the handler works on. -/
def execute
    (parser : HttpParser llhttp) (handler : RequestHandler J τ)
    (data : StdString) (outer : τ) : Executed llhttp × τ :=
  let result := llhttp.execute parser.state data
  match (result.callbacks.foldlM (Impl.on handler) parser.impl).run outer with
  | (.ok impl, outer) =>
      if result.errno = .ok then (.accepted ⟨result.next, impl⟩, outer)
      else
        (.failed 400 (result.errno.name ++ ascii ": " ++ result.reason), outer)
  | (.error (.failed failure headerLimitHit), outer) =>
      (.failed (if headerLimitHit then 431 else 400) failure, outer)
  | (.error (.escaped exception), outer) => (.escaped exception, outer)

/-- Successive calls of `execute`, up to the first one that fails. -/
def feed (handler : RequestHandler J τ) :
    HttpParser llhttp → List StdString → τ → Executed llhttp × τ
  | parser, [], outer => (.accepted parser, outer)
  | parser, chunk :: chunks, outer =>
      match parser.execute handler chunk outer with
      | (.accepted parser, outer) => feed handler parser chunks outer
      | stopped => stopped

end HttpParser

end PlusWeb
