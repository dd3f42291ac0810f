import PlusWeb.ClientView
import PlusWeb.WasmTotality

/-!
# The parser of the WebAssembly module and the server

`pw_parse_request` gives the parser a text in one piece; a connection gives
it what arrives, piece by piece, and calls the handlers between.  On the same
bytes they agree: while the connection is open, the document tells of the
last request that a handler was called for, or that there was none, and the
module refuses a text exactly if the server's parser refuses the bytes of it,
however they are cut.
-/

namespace PlusWeb.Wasm

variable [JsonText] {llhttp : Llhttp}

/-- What is told of the requests of a text that the parser accepts. -/
def lastDocument
    (requests : List (HttpRequest Document × Bool)) : Document :=
  match requests.getLast? with
  | some delivery => requestDocument delivery.1
  | none =>
      failureDocument
        (ascii "incomplete request: headers did not terminate")

/-- What the parser reads of the whole text. -/
theorem feed_whole (rawText : CPointer) :
    (HttpParser.new llhttp kMaxHeaderBytes).feed (record (J := Document))
        [rawText.text] [] =
      ((reading llhttp rawText).1,
        (HttpParser.new llhttp kMaxHeaderBytes).delivers Document
          rawText.text) := by
  have one :=
    HttpParser.feed_concat (record (J := Document))
      (HttpParser.new llhttp kMaxHeaderBytes) [] rawText.text []
  rw [List.nil_append] at one
  rw [one]
  simp only [HttpParser.feed, HttpParser.execute_eq, HttpParser.each_record,
    List.nil_append]
  rfl

/-- What has failed stays so. -/
theorem feed_append_of_failed
    {chunks : List StdString} {status : Nat} {reason : StdString}
    {requests : List (HttpRequest Document × Bool)}
    (fed :
      (HttpParser.new llhttp kMaxHeaderBytes).feed record chunks [] =
        (.failed status reason, requests))
    (more : List StdString) :
    (HttpParser.new llhttp kMaxHeaderBytes).feed record (chunks ++ more)
        [] =
      (.failed status reason, requests) := by
  induction more using List.reverseRecOn with
  | nil => rw [List.append_nil, fed]
  | append_singleton more data induction =>
      rw [← List.append_assoc, HttpParser.feed_concat, induction]

/-- A text in any pieces that the recording parser takes. -/
theorem parseRequest_of_accepted
    (assumed : llhttp.Assumed) {rawText : CPointer}
    {chunks : List StdString} (same : chunks.flatten = rawText.text)
    {parser : HttpParser llhttp}
    {requests : List (HttpRequest Document × Bool)}
    (fed :
      (HttpParser.new llhttp kMaxHeaderBytes).feed record chunks [] =
        (.accepted parser, requests)) :
    parseRequest llhttp rawText = .ok (lastDocument requests) := by
  have one : chunks.flatten = [rawText.text].flatten := by simpa using same
  have judged :=
    feed_independent assumed (record (J := Document)) kMaxHeaderBytes one []
  rw [fed, feed_whole] at judged
  obtain ⟨verdict, delivered⟩ := Prod.mk.inj judged
  have told :
      (reading llhttp rawText).2 = requests.getLast?.map Prod.fst := by
    rw [show requests = _ from delivered]
    rfl
  rw [parseRequest_eq, lastDocument]
  generalize reading llhttp rawText = read at verdict told ⊢
  rcases read with ⟨executed, last⟩
  cases executed with
  | failed status reason => cases verdict
  | escaped exception => cases verdict
  | accepted next =>
      dsimp only at told
      subst told
      cases requests.getLast? <;> rfl

/-- A text in any pieces that the recording parser does not take. -/
theorem parseRequest_of_failed
    (assumed : llhttp.Assumed) {rawText : CPointer}
    {chunks : List StdString} (same : chunks.flatten = rawText.text)
    {status : Nat} {reason : StdString}
    {requests : List (HttpRequest Document × Bool)}
    (fed :
      (HttpParser.new llhttp kMaxHeaderBytes).feed record chunks [] =
        (.failed status reason, requests)) :
    ∃ what, parseRequest llhttp rawText = .ok (failureDocument what) := by
  have one : chunks.flatten = [rawText.text].flatten := by simpa using same
  have judged :=
    feed_independent assumed (record (J := Document)) kMaxHeaderBytes one []
  rw [fed, feed_whole] at judged
  have verdict := (Prod.mk.inj judged).1
  rw [parseRequest_eq]
  generalize reading llhttp rawText = read at verdict ⊢
  rcases read with ⟨executed, last⟩
  cases executed with
  | accepted next => cases verdict
  | escaped exception => cases verdict
  | failed status' reason' => exact ⟨reason', rfl⟩

/--
A connection to any server that has received the bytes of a text, in any
reads: while it is open, `pw_parse_request` tells of the last request that a
handler was called for; and if its parser has refused a read,
`pw_parse_request` refuses the text.
-/
theorem parseRequest_agrees
    {A : Type} (assumed : llhttp.Assumed) (server : Server Document A)
    (app : A) {events : List (Conn.Event A)} {rawText : CPointer}
    (same : (Conn.reads events).flatten = rawText.text) :
    (((Conn.new llhttp app).run server events).session.live = true →
        parseRequest llhttp rawText =
          .ok
            (lastDocument
              ((Conn.new llhttp app).run server
                events).session.deliveries)) ∧
      ∀ past data later status reason,
        events = past ++ .read data :: later →
          ((Conn.new llhttp app).run server past).session.live = true →
            ((Conn.new llhttp app).run server past).parser.ends Document
                data .returned =
                .failed status reason →
              ∃ what,
                parseRequest llhttp rawText =
                  .ok (failureDocument what) := by
  constructor
  · intro live
    exact
      parseRequest_of_accepted assumed same
        ((Conn.follows_run server app events).level live)
  · rintro past data later status reason rfl live refused
    have before := (Conn.follows_run server app past).level live
    have failed :
        (HttpParser.new llhttp kMaxHeaderBytes).feed
            (record (J := Document)) (Conn.reads past ++ [data]) [] =
          (.failed status reason,
            ((Conn.new llhttp app).run server past).session.deliveries ++
              ((Conn.new llhttp app).run server past).parser.delivers
                Document data) := by
      rw [HttpParser.feed_concat, before]
      simp only [HttpParser.execute_ends, HttpParser.each_record, refused]
    have pieces :
        Conn.reads (past ++ .read data :: later) =
          (Conn.reads past ++ [data]) ++ Conn.reads later := by
      simp [Conn.reads, Conn.Event.data?]
    rw [pieces] at same
    exact
      parseRequest_of_failed assumed same
        (feed_append_of_failed failed (Conn.reads later))

/-- A server whose handlers do nothing. -/
def idleServer : Server Document Unit where
  setup := helloSetup
  callbacks :=
    { middleware := fun _ => Script.done
      handler := fun _ => Action.skip }
  memory _ := 200
  kernel _ := .takes 65536

/-- A request in two pieces. -/
def twoPieces : List (Conn.Event Unit) :=
  [.read (ascii "GET / HT"), .read (ascii "TP/1.1\r\n\r\n")]

omit [JsonText] in
theorem parseRequest_agrees_twoPieces :
    @parseRequest plainJson bodilessRequests.llhttp
        (CPointer.ofAscii "GET / HTTP/1.1\r\n\r\n") =
      .ok
        (@lastDocument
          (@Conn.run Document Unit bodilessRequests.llhttp
            (@instJsonDocumentOfJsonText plainJson) idleServer
            (Conn.new bodilessRequests.llhttp ())
            twoPieces).session.deliveries) := by
  have whole :
      (Conn.reads twoPieces).flatten =
        CPointer.text (CPointer.ofAscii "GET / HTTP/1.1\r\n\r\n") := by
    decide +kernel
  have agrees :=
    @parseRequest_agrees plainJson _ _ bodilessRequests_assumed idleServer ()
      _ _ whole
  exact agrees.1 (by decide +kernel)

end PlusWeb.Wasm
