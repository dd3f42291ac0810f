import PlusWeb.ConnTranscript

/-!
# What a client reads

The bytes that have come through are the first bytes of the answers to the
first of the client's requests.  A client that finds the end of each response
by the message-length rules reads from them exactly the answers that have
come whole, in the order of its requests, however the bytes were cut on their
way in and out and whatever ended the connection, if each answer is delimited.
-/

namespace PlusWeb

open LengthFraming

variable {J A : Type} {llhttp : Llhttp}

/-- A head is read from the same bytes, whatever follows. -/
theorem httpClient_stable : httpClient.Stable :=
  fun _ _ _ more found => LineBlock.read_append found more

variable [Json J]

/-- Answers of a server whose chain leaves presentable responses. -/
theorem exists_answers
    {server : Server J A}
    (presentable :
      ∀ request app left,
        server.setup.runChain server.callbacks
            ⟨⟨request, HttpResponse.fresh, app⟩, []⟩ =
          (.returned, left) → left.state.res.Presentable)
    {turns : List (Turn J)} (all : ∀ turn ∈ turns, turn.Answers server) :
    ∃ answers : List (Answered server),
      answers.map Answered.toTurn = turns := by
  induction turns with
  | nil => exact ⟨[], rfl⟩
  | cons turn turns induction =>
      obtain ⟨own, others⟩ := List.forall_mem_cons.mp all
      obtain ⟨answer, rfl⟩ := own.answered (presentable turn.request)
      obtain ⟨answers, rfl⟩ := induction others
      exact ⟨answer :: answers, rfl⟩

namespace Answered

variable {server : Server J A}

/-- The buffers of a delimited answer are its text. -/
theorem Delimited.buffers_eq
    {answer : Answered server} (delimited : answer.Delimited) :
    Session.buffers answer.head answer.body = answer.frame.text :=
  (Session.buffers_eq delimited.fits).trans answer.bytes

/-- The first bytes of some delimited answers, read by a client. -/
theorem readWhole_of_prefix
    {answers : List (Answered server)}
    (delimited : ∀ answer ∈ answers, answer.Delimited)
    {bytes tail : StdString}
    (early :
      bytes <+:
        (answers.flatMap fun answer =>
            Session.buffers answer.head answer.body) ++ tail) :
    httpClient.readWhole (answers.map fun answer => answer.request.method)
        bytes =
      ((whole bytes.length (answers.map Answered.frame)).map Frame.read,
        bytes.drop
          ((whole bytes.length
            (answers.map Answered.frame)).flatMap Frame.text).length) := by
  have texts :
      (answers.flatMap fun answer =>
          Session.buffers answer.head answer.body) =
        (answers.map Answered.frame).flatMap Frame.text := by
    rw [List.flatMap_map]
    exact
      List.flatMap_congr fun answer member =>
        (delimited answer member).buffers_eq
  have methods :
      (answers.map fun answer => answer.request.method) =
        (answers.map Answered.frame).map Frame.message := by
    rw [List.map_map]
    rfl
  rw [texts] at early
  rw [methods]
  apply LengthFraming.readWhole_of_prefix httpClient_stable _ _ early
  · exact List.forall_mem_map.mpr fun answer _ => answer.headRead
  · exact
      List.forall_mem_map.mpr fun answer member =>
        answer.counted_iff.mpr (delimited answer member).expected

end Answered

namespace Conn

/--
Every run of a connection to a server whose chain leaves presentable
responses: its log holds answers to the first of the requests in the bytes
received, up to one whose handler threw, and if these answers are delimited a
client reads those of them that have come whole.
-/
theorem client_reads_answers
    (assumed : llhttp.Assumed) {server : Server J A}
    (presentable :
      ∀ request app left,
        server.setup.runChain server.callbacks
            ⟨⟨request, HttpResponse.fresh, app⟩, []⟩ =
          (.returned, left) → left.state.res.Presentable)
    (app : A) (events : List (Event A)) :
    let conn : Conn llhttp J A := (Conn.new llhttp app).run server events
    ∃ (answers : List (Answered server))
        (failing : Option (HttpRequest J × Bool))
        (rejection : Option StdString),
      conn.Transcript server (answers.map Answered.toTurn) failing
          rejection ∧
        (answers.map fun answer => answer.delivery) ++ failing.toList <+:
            deliveries J llhttp kMaxHeaderBytes [(reads events).flatten] ∧
          ((∀ answer ∈ answers, answer.Delimited) →
            httpClient.readWhole
                (answers.map fun answer => answer.request.method)
                conn.session.stream.accepted =
              ((whole conn.session.stream.accepted.length
                  (answers.map Answered.frame)).map Frame.read,
                conn.session.stream.accepted.drop
                  ((whole conn.session.stream.accepted.length
                    (answers.map Answered.frame)).flatMap
                      Frame.text).length)) := by
  obtain ⟨turns, failing, rejection, transcript⟩ :=
    @transcript_run J A llhttp _ server app events
  obtain ⟨answers, rfl⟩ := exists_answers presentable transcript.answers
  refine
    ⟨answers, failing, rejection, transcript, ?_, fun delimited => ?_⟩
  · have logged := transcript.deliveries
    rw [List.map_map] at logged
    have early := (@follows_run J A llhttp _ server app events).early
    rw [logged, deliveries_reads assumed] at early
    exact early
  · apply Answered.readWhole_of_prefix delimited
    have offered := transcript.offered
    rw [List.flatMap_map] at offered
    rw [← offered]
    exact (List.prefix_append _ _).trans transcript.wired.early

/-- Pipelined requests, answered with a text. -/
theorem client_reads_answers_pipelinedReads :
    let conn : Conn bodilessRequests.llhttp FlatJson Unit :=
      (Conn.new bodilessRequests.llhttp ()).run (statusServer 200)
        pipelinedReads
    ∃ (answers : List (Answered (statusServer 200)))
        (failing : Option (HttpRequest FlatJson × Bool))
        (rejection : Option StdString),
      conn.Transcript (statusServer 200) (answers.map Answered.toTurn)
          failing rejection ∧
        (answers.map fun answer => answer.delivery) ++ failing.toList <+:
            deliveries FlatJson bodilessRequests.llhttp kMaxHeaderBytes
              [(reads pipelinedReads).flatten] ∧
          ((∀ answer ∈ answers, answer.Delimited) →
            httpClient.readWhole
                (answers.map fun answer => answer.request.method)
                conn.session.stream.accepted =
              ((whole conn.session.stream.accepted.length
                  (answers.map Answered.frame)).map Frame.read,
                conn.session.stream.accepted.drop
                  ((whole conn.session.stream.accepted.length
                    (answers.map Answered.frame)).flatMap
                      Frame.text).length)) :=
  client_reads_answers bodilessRequests_assumed
    (statusServer.presentable 200) () pipelinedReads

end Conn

end PlusWeb
