import PlusWeb.HttpParser

/-!
# What is assumed of llhttp

llhttp reports the text of a request in spans.  Cutting the input cuts spans
into fragments and changes nothing else, and after a message that keeps the
connection alive llhttp treats what follows as a new parser does.  After one
that does not, it accepts line ends only, and it pauses after a request that
asks for an upgrade.
-/

namespace PlusWeb

open Fragments

/-! ## Fragments of spans -/

/-- Two adjacent spans of one kind are fragments of one span. -/
def Callback.join : Callback → Callback → Option Callback
  | .url front, .url back => some (.url (front ++ back))
  | .headerField front, .headerField back =>
      some (.headerField (front ++ back))
  | .headerValue front, .headerValue back =>
      some (.headerValue (front ++ back))
  | .body front, .body back => some (.body (front ++ back))
  | _, _ => none

theorem Callback.join_associative : Associative Callback.join := by
  constructor
  · intro first second both joined third apart
    cases first <;> cases second <;> simp [Callback.join] at joined <;>
      subst joined <;> cases third <;> simp [Callback.join] at apart ⊢
  · intro first second both joined third rest joined'
    cases first <;> cases second <;> simp [Callback.join] at joined <;>
      subst joined <;> cases third <;> simp [Callback.join] at joined' <;>
      subst joined' <;> simp [Callback.join]

/-- The end of a message is no span. -/
theorem Callback.whole_messageComplete (info : MessageInfo) :
    Whole Callback.join (.messageComplete info) where
  before other := by cases other <;> rfl
  after other := by cases other <;> rfl
  made first second := by
    cases first <;> cases second <;> simp [Callback.join]

/-- Two runs of llhttp that differ only in the cuts of spans. -/
def SameSpans (first second : List Callback × Errno) : Prop :=
  merge Callback.join first.1 = merge Callback.join second.1 ∧
    first.2 = second.2

/-- The end of a message. -/
def Callback.Ends : Callback → Prop
  | .messageComplete _ => True
  | _ => False

instance : DecidablePred Callback.Ends
  | .messageComplete _ => .isTrue trivial
  | .url _ => .isFalse not_false
  | .headerField _ => .isFalse not_false
  | .headerValue _ => .isFalse not_false
  | .headersComplete => .isFalse not_false
  | .body _ => .isFalse not_false

namespace Llhttp

/-- Successive calls of `llhttp_execute`, up to the first error. -/
def feed (llhttp : Llhttp) :
    llhttp.State → List StdString → List Callback × Errno
  | _, [] => ([], .ok)
  | state, chunk :: chunks =>
      let result := llhttp.execute state chunk
      if result.errno = .ok then
        let (later, errno) := llhttp.feed result.next chunks
        (result.callbacks ++ later, errno)
      else (result.callbacks, result.errno)

/--
The bytes of exactly one message, and whether it keeps the connection
alive.
-/
structure Message (llhttp : Llhttp) (bytes : StdString) (keepAlive : Bool) :
    Prop where
  complete : ∃ front info,
    (llhttp.execute llhttp.init bytes).callbacks =
        front ++ [.messageComplete info] ∧
      info.shouldKeepAlive = keepAlive ∧
      ∀ callback ∈ front, ¬ callback.Ends
  whole : ∀ start, start <+: bytes → start ≠ bytes →
    ∀ callback ∈ (llhttp.execute llhttp.init start).callbacks,
      ¬ callback.Ends

/-- The beginnings of a message are counted by their lengths. -/
theorem whole_of_take
    {llhttp : Llhttp} {bytes : StdString}
    (quiet : ∀ count < bytes.length,
      ∀ callback ∈
        (llhttp.execute llhttp.init (bytes.take count)).callbacks,
        ¬ callback.Ends) :
    ∀ start, start <+: bytes → start ≠ bytes →
      ∀ callback ∈ (llhttp.execute llhttp.init start).callbacks,
        ¬ callback.Ends := by
  intro start isPrefix different
  have shorter : start.length < bytes.length :=
    lt_of_le_of_ne isPrefix.length_le fun same =>
      different (isPrefix.eq_of_length same)
  have counted := quiet start.length shorter
  rwa [← List.prefix_iff_eq_take.mp isPrefix] at counted

/-- Messages that can follow each other on one connection. -/
def Pipeline (llhttp : Llhttp) : List StdString → Prop
  | [] => True
  | [message] => ∃ keepAlive, llhttp.Message message keepAlive
  | message :: next :: rest =>
      llhttp.Message message true ∧
        (llhttp.execute llhttp.init message).errno = .ok ∧
        Pipeline llhttp (next :: rest)

/-- Each part of a pipeline is a message. -/
theorem Pipeline.message
    {llhttp : Llhttp} {messages : List StdString}
    (pipeline : llhttp.Pipeline messages) {message : StdString}
    (member : message ∈ messages) :
    ∃ keepAlive, llhttp.Message message keepAlive := by
  induction messages with
  | nil => simp at member
  | cons first rest induction =>
      cases rest with
      | nil =>
          obtain rfl := List.mem_singleton.mp member
          exact pipeline
      | cons next rest =>
          rcases pipeline with ⟨isMessage, -, later⟩
          rcases List.mem_cons.mp member with rfl | member
          · exact ⟨true, isMessage⟩
          · exact induction later member

/-- What is assumed of llhttp as to cuts. -/
structure Assumed (llhttp : Llhttp) : Prop where
  /-- Cutting the input only cuts spans. -/
  cuts : ∀ chunks chunks', chunks.flatten = chunks'.flatten →
    SameSpans (llhttp.feed llhttp.init chunks)
      (llhttp.feed llhttp.init chunks')
  /-- After a message that keeps the connection alive the parser is as new. -/
  restarts : ∀ message, llhttp.Message message true →
    (llhttp.execute llhttp.init message).errno = .ok →
    ∀ chunks,
      SameSpans
        (llhttp.feed (llhttp.execute llhttp.init message).next chunks)
        (llhttp.feed llhttp.init chunks)

/--
What is assumed of llhttp as to the end of a connection: a message that
does not keep it alive is the last one of the call, and what llhttp can still
find wrong with the call is that there are bytes behind it, or that it asks
for an upgrade.
-/
def Closes (llhttp : Llhttp) : Prop :=
  ∀ state bytes front info back,
    (llhttp.execute state bytes).callbacks =
      front ++ .messageComplete info :: back →
    info.shouldKeepAlive = false →
      back = [] ∧
        ((llhttp.execute state bytes).errno = .ok ∨
          (llhttp.execute state bytes).errno = .pausedUpgrade ∨
          (llhttp.execute state bytes).errno = .closedConnection)

end Llhttp

end PlusWeb
