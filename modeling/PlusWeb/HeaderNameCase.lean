import PlusWeb.TrailerFields

/-!
# The letter case of header names

Headers are kept under the bytes they came with, and the body is read as JSON
if the value under `Content-Type` is `application/json`.  So it is one
spelling of one name that decides.

Two streams that differ only in the case of header names, and of which llhttp
reports the same but for these names, are read alike exactly if they agree on
that entry for each message that has a body and is reached within the budget.
-/

namespace PlusWeb

/-! ## Spellings -/

/-- Callbacks that differ in the case of a header name only. -/
inductive Callback.Recased : Callback → Callback → Prop
  | same (callback : Callback) : Recased callback callback
  | headerField {span span' : StdString} (same : SameButCase span span') :
      Recased (.headerField span) (.headerField span')

/-- A field line under another spelling of its name. -/
structure ReportedField.Recased (field field' : ReportedField) : Prop where
  name : List.Forall₂ SameButCase field.name field'.name
  value : field.value = field'.value

/-- A message with other spellings of its header names. -/
structure ReportedMessage.Recased (message message' : ReportedMessage) :
    Prop where
  target : message.target = message'.target
  fields : List.Forall₂ ReportedField.Recased message.fields message'.fields
  body : message.body = message'.body
  trailers :
    List.Forall₂ ReportedField.Recased message.trailers message'.trailers
  info : message.info = message'.info

/--
What llhttp reports of two streams that differ in the case of header
names only.
-/
structure Llhttp.DifferInCase
    (llhttp : Llhttp) (chunks chunks' : List StdString)
    (messages messages' : List ReportedMessage)
    (rest rest' : List Callback) : Prop where
  reports : llhttp.Reports chunks messages rest
  reports' : llhttp.Reports chunks' messages' rest'
  recased : List.Forall₂ ReportedMessage.Recased messages messages'
  unfinished : List.Forall₂ Callback.Recased rest rest'
  errno :
    (llhttp.feed llhttp.init chunks).2 = (llhttp.feed llhttp.init chunks').2

/-- The callbacks of both are charged alike. -/
def ChargedAlike (callbacks callbacks' : List Callback) : Prop :=
  (callbacks.map Callback.charge).sum = (callbacks'.map Callback.charge).sum

theorem chargedAlike_of_recased
    {callbacks callbacks' : List Callback}
    (recased : List.Forall₂ Callback.Recased callbacks callbacks') :
    ChargedAlike callbacks callbacks' := by
  unfold ChargedAlike
  induction recased with
  | nil => rfl
  | cons head tail induction =>
      rw [List.map_cons, List.sum_cons, List.map_cons, List.sum_cons,
        induction]
      congr 1
      cases head with
      | same => rfl
      | headerField same => exact same.length_eq

theorem ReportedField.Recased.callbacks
    {field field' : ReportedField} (recased : field.Recased field') :
    List.Forall₂ Callback.Recased field.callbacks field'.callbacks := by
  apply List.rel_append
  · rw [List.forall₂_map_left_iff, List.forall₂_map_right_iff]
    exact recased.name.imp fun span span' same => .headerField same
  · rw [recased.value]
    exact List.forall₂_same.mpr fun callback _ => .same callback

theorem recased_fields
    {fields fields' : List ReportedField}
    (recased : List.Forall₂ ReportedField.Recased fields fields') :
    List.Forall₂ Callback.Recased
      (fields.flatMap ReportedField.callbacks)
      (fields'.flatMap ReportedField.callbacks) := by
  induction recased with
  | nil => exact .nil
  | cons head tail induction =>
      exact List.rel_append head.callbacks induction

theorem ReportedMessage.Recased.charge
    {message message' : ReportedMessage}
    (recased : message.Recased message') :
    message.charge = message'.charge := by
  have same (callbacks : List Callback) :
      List.Forall₂ Callback.Recased callbacks callbacks :=
    List.forall₂_same.mpr fun callback _ => .same callback
  apply chargedAlike_of_recased
  rw [front, front, recased.target, recased.body]
  apply List.rel_append (same _)
  apply List.rel_append (recased_fields recased.fields)
  apply List.Forall₂.cons (.same _)
  exact List.rel_append (same _) (recased_fields recased.trailers)

/-! ## Reading a body -/

section Bodies

variable {J : Type} [Json J]

/-- The body of a request, as JSON or as text. -/
def readBody (J : Type) [Json J] (asJson : Prop) [Decidable asJson]
    (body : StdString) : Except CxxException (HttpBody J) :=
  if body = [] then .ok HttpBody.new
  else if asJson then
    match Json.parse body with
    | .error what => .error (.stdException what)
    | .ok j =>
        match HttpBody.setJson j HttpBody.new with
        | (.returned, body) => .ok body
        | (.threw exception, _) => .error exception
  else .ok (HttpBody.new.setText body)

namespace ReportedMessage

/--
A committed field with the name `Content-Type`, letter for letter, says
that the body is JSON, and none behind it says otherwise.
-/
def JsonTyped (message : ReportedMessage) : Prop :=
  (StdMap.insertAll ∅ message.committed)[ascii "Content-Type"]? =
    some (ascii "application/json")

instance (message : ReportedMessage) : Decidable message.JsonTyped :=
  inferInstanceAs (Decidable (_ = _))

/-- The message fits the budget and its body can be read. -/
def Accepted (J : Type) [Json J] (limit : Nat) (message : ReportedMessage) :
    Prop :=
  message.charge ≤ limit ∧
    ∃ body : HttpBody J,
      readBody J message.JsonTyped message.body.flatten = .ok body

end ReportedMessage

theorem Impl.requestBody_eq (impl : Impl) :
    ∃ headers,
      (impl.requestBody : Except CxxException (StdMap × HttpBody J)) =
        (readBody J
          (impl.headers[ascii "Content-Type"]? =
            some (ascii "application/json")) impl.body).map
          fun body => (headers, body) := by
  refine
    ⟨if impl.body = [] then impl.headers
      else impl.headers.insert (ascii "Content-Type")
        (impl.headers[ascii "Content-Type"]?.getD []), ?_⟩
  have typed :
      impl.headers[ascii "Content-Type"]?.getD [] =
          ascii "application/json" ↔
        impl.headers[ascii "Content-Type"]? =
          some (ascii "application/json") := by
    cases impl.headers[ascii "Content-Type"]? with
    | none => exact iff_of_false (by decide) (by simp)
    | some value => simp
  unfold requestBody readBody
  by_cases empty : impl.body = []
  · simp [empty, Except.map]
  · simp only [empty, if_false, typed]
    by_cases json :
        impl.headers[ascii "Content-Type"]? =
          some (ascii "application/json")
    · simp only [json, if_true]
      cases Json.parse (J := J) impl.body with
      | error what => rfl
      | ok j =>
          dsimp only
          cases HttpBody.setJson j HttpBody.new with
          | mk outcome body => cases outcome <;> rfl
    · simp only [json, if_false]
      rfl

/-- What a message comes to, from its body. -/
theorem ReportedMessage.outcome_of_body
    (message : ReportedMessage) {limit : Nat}
    (within : message.charge ≤ limit) :
    match readBody J message.JsonTyped message.body.flatten with
    | .ok body =>
        ∃ request, message.outcome J limit = .ok request ∧
          request.body = body
    | .error exception =>
        message.outcome J limit =
          .error (Impl.caught (ascii "invalid JSON body: ") exception) := by
  obtain ⟨headers, read⟩ := Impl.requestBody_eq (J := J) message.gathered
  have read :
      message.gathered.requestBody =
        (readBody J message.JsonTyped message.body.flatten).map
          fun body => (headers, body) := read
  rw [outcome, if_neg (not_lt.mpr within), Impl.request, read]
  cases readBody J message.JsonTyped message.body.flatten with
  | ok body => exact ⟨_, rfl, rfl⟩
  | error exception => rfl

/--
Read as text, a body is accepted, and it is of another type than one that
was read as JSON.
-/
theorem readBody_text
    {body : StdString} (nonempty : body ≠ [])
    {asJson : Prop} [Decidable asJson] (text : ¬ asJson) :
    readBody J asJson body = .ok (HttpBody.new.setText body) := by
  rw [readBody, if_neg nonempty, if_neg text]

theorem type_of_readBody_json
    {body : StdString} (nonempty : body ≠ [])
    {asJson : Prop} [Decidable asJson] (json : asJson) {read : HttpBody J}
    (accepted : readBody J asJson body = .ok read) :
    read.type = .json := by
  rw [readBody, if_neg nonempty, if_pos json] at accepted
  split at accepted
  · cases accepted
  · next j _ =>
    unfold HttpBody.setJson at accepted
    dsimp only at accepted
    split at accepted
    · next written =>
      split at written
      · rcases Prod.mk.inj written with ⟨-, rfl⟩
        obtain rfl := Except.ok.inj accepted
        rfl
      · cases (Prod.mk.inj written).1
    · cases accepted

end Bodies

/-! ## Messages -/

section Messages

variable {J : Type} [Json J]

/-- The same type, the same bytes and the same JSON value. -/
structure SameBody (request request' : HttpRequest J) : Prop where
  type : request.body.type = request'.body.type
  raw : request.body.rawData = request'.body.rawData
  json : request.body.jsonData = request'.body.jsonData

/-- Two messages are handed on with the same body, or both rejected. -/
def SameFate : Except Stop (HttpRequest J) → Except Stop (HttpRequest J) → Prop
  | .ok request, .ok request' => SameBody request request'
  | .error _, .error _ => True
  | _, _ => False

namespace ReportedMessage

/--
The spelling of the names does not decide: the message exceeds the budget
or has no body, or both or neither of the spellings make it JSON.
-/
def SpellingFree (limit : Nat) (message message' : ReportedMessage) : Prop :=
  limit < message.charge ∨ message.body.flatten = [] ∨
    (message.JsonTyped ↔ message'.JsonTyped)

variable {message message' : ReportedMessage} {limit : Nat}

/-- Where the spelling does not decide, both come to the same. -/
theorem Recased.same_of_spellingFree
    (recased : message.Recased message')
    (free : message.SpellingFree limit message') :
    (∃ stop,
        message.outcome J limit = .error stop ∧
          message'.outcome J limit = .error stop ∧
          ¬ message.Accepted J limit) ∨
      ∃ request request',
        message.outcome J limit = .ok request ∧
          message'.outcome J limit = .ok request' ∧
          SameBody request request' ∧ message.Accepted J limit := by
  by_cases exceeds : limit < message.charge
  · left
    refine ⟨_, if_pos exceeds, if_pos ?_, ?_⟩
    · rwa [← recased.charge]
    · exact fun accepted => absurd exceeds (not_lt.mpr accepted.1)
  · have within : message.charge ≤ limit := not_lt.mp exceeds
    have within' : message'.charge ≤ limit := recased.charge ▸ within
    have fate := message.outcome_of_body (J := J) within
    have fate' := message'.outcome_of_body (J := J) within'
    have same :
        readBody J message'.JsonTyped message'.body.flatten =
          readBody J message.JsonTyped message.body.flatten := by
      rw [← recased.body]
      rcases free.resolve_left exceeds with empty | typed
      · rw [readBody, if_pos empty, readBody, if_pos empty]
      · simp only [readBody, typed]
    rw [same] at fate'
    cases read : readBody J message.JsonTyped message.body.flatten with
    | error exception =>
        rw [read] at fate fate'
        left
        refine ⟨_, fate, fate', ?_⟩
        rintro ⟨-, body, accepted⟩
        rw [read] at accepted
        cases accepted
    | ok body =>
        rw [read] at fate fate'
        rcases fate with ⟨request, reached, rfl⟩
        rcases fate' with ⟨request', reached', equal⟩
        right
        refine
          ⟨request, request', reached, reached', ?_, within, _, read⟩
        exact ⟨by rw [equal], by rw [equal], by rw [equal]⟩

/-- A message with a body that is not JSON is text. -/
theorem outcome_of_text
    (within : message.charge ≤ limit)
    (nonempty : message.body.flatten ≠ []) (text : ¬ message.JsonTyped) :
    ∃ request, message.outcome J limit = .ok request ∧
      request.body.type = .text := by
  have fate := message.outcome_of_body (J := J) within
  rw [readBody_text nonempty text] at fate
  rcases fate with ⟨request, reached, equal⟩
  exact ⟨request, reached, by rw [equal]; rfl⟩

/-- A message whose body is JSON is JSON if it is accepted. -/
theorem type_of_outcome_json
    (within : message.charge ≤ limit)
    (nonempty : message.body.flatten ≠ []) (json : message.JsonTyped)
    {request : HttpRequest J}
    (reached : message.outcome J limit = .ok request) :
    request.body.type = .json := by
  have fate := message.outcome_of_body (J := J) within
  cases read : readBody J message.JsonTyped message.body.flatten with
  | error exception =>
      rw [read, reached] at fate
      cases fate
  | ok body =>
      rw [read] at fate
      rcases fate with ⟨request', reached', rfl⟩
      obtain rfl := Except.ok.inj (reached.symm.trans reached')
      exact type_of_readBody_json nonempty json read

/-- Where it decides, one is JSON or rejected and the other is text. -/
theorem Recased.differ_of_not_spellingFree
    (recased : message.Recased message')
    (decides : ¬ message.SpellingFree limit message') :
    ¬ SameFate (message.outcome J limit) (message'.outcome J limit) := by
  rcases not_or.mp decides with ⟨within, other⟩
  rcases not_or.mp other with ⟨nonempty, differ⟩
  have within : message.charge ≤ limit := not_lt.mp within
  have within' : message'.charge ≤ limit := recased.charge ▸ within
  have nonempty' : message'.body.flatten ≠ [] := recased.body ▸ nonempty
  intro same
  by_cases json : message.JsonTyped
  · have text : ¬ message'.JsonTyped := fun json' =>
      differ (iff_of_true json json')
    obtain ⟨request', reached', isText⟩ :=
      outcome_of_text (J := J) within' nonempty' text
    rw [reached'] at same
    cases reached : message.outcome J limit with
    | error stop =>
        rw [reached] at same
        exact same
    | ok request =>
        rw [reached] at same
        have isJson := type_of_outcome_json within nonempty json reached
        have equal := same.type
        rw [isJson, isText] at equal
        cases equal
  · have json' : message'.JsonTyped := by
      by_contra text'
      exact differ (iff_of_false json text')
    obtain ⟨request, reached, isText⟩ :=
      outcome_of_text (J := J) within nonempty json
    rw [reached] at same
    cases reached' : message'.outcome J limit with
    | error stop =>
        rw [reached'] at same
        exact same
    | ok request' =>
        rw [reached'] at same
        have isJson := type_of_outcome_json within' nonempty' json' reached'
        have equal := same.type
        rw [isJson, isText] at equal
        cases equal

end ReportedMessage

/-! ## Streams -/

/--
The spelling decides for no message up to the first one that is not
accepted.
-/
def SpellingsFree (J : Type) [Json J] (limit : Nat) :
    List ReportedMessage → List ReportedMessage → Prop
  | message :: messages, message' :: messages' =>
      message.SpellingFree limit message' ∧
        (message.Accepted J limit → SpellingsFree J limit messages messages')
  | _, _ => True

/-- The requests of two lists of deliveries have the same bodies. -/
def SameBodies (delivered delivered' : List (HttpRequest J × Bool)) : Prop :=
  List.Forall₂ (fun given given' => SameBody given.1 given'.1)
    delivered delivered'

omit [Json J] in
/-- The types of the bodies are the same. -/
theorem SameBodies.types
    {delivered delivered' : List (HttpRequest J × Bool)}
    (same : SameBodies delivered delivered') :
    delivered.map (fun given => given.1.body.type) =
      delivered'.map fun given => given.1.body.type := by
  induction same with
  | nil => rfl
  | cons head tail induction =>
      rw [List.map_cons, List.map_cons, head.type, induction]

variable {messages messages' : List ReportedMessage} {limit : Nat}

theorem read_of_spellingsFree
    (recased : List.Forall₂ ReportedMessage.Recased messages messages')
    (free : SpellingsFree J limit messages messages') :
    (readMessages J limit messages).1 = (readMessages J limit messages').1 ∧
      SameBodies (readMessages J limit messages).2
        (readMessages J limit messages').2 := by
  induction recased with
  | nil => exact ⟨rfl, .nil⟩
  | @cons message message' messages messages' head tail induction =>
      rcases free with ⟨own, later⟩
      rw [readMessages, readMessages]
      rcases head.same_of_spellingFree (J := J) own with
        ⟨stop, reached, reached', -⟩ |
          ⟨request, request', reached, reached', same, accepted⟩
      · rw [reached, reached']
        exact ⟨rfl, .nil⟩
      · rw [reached, reached']
        rcases induction (later accepted) with ⟨result, delivered⟩
        exact ⟨result, .cons same delivered⟩

theorem spellingsFree_of_read
    (recased : List.Forall₂ ReportedMessage.Recased messages messages')
    (same :
      SameBodies (readMessages J limit messages).2
        (readMessages J limit messages').2) :
    SpellingsFree J limit messages messages' := by
  induction recased with
  | nil => exact trivial
  | @cons message message' messages messages' head tail induction =>
      rw [readMessages, readMessages] at same
      by_cases own : message.SpellingFree limit message'
      · refine ⟨own, fun accepted => ?_⟩
        rcases head.same_of_spellingFree (J := J) own with
          ⟨stop, -, -, rejected⟩ |
            ⟨request, request', reached, reached', -, -⟩
        · exact absurd accepted rejected
        · rw [reached, reached'] at same
          exact induction (List.forall₂_cons.mp same).2
      · exfalso
        apply head.differ_of_not_spellingFree (J := J) own
        cases reached : message.outcome J limit with
        | error stop =>
            rw [reached] at same
            cases reached' : message'.outcome J limit with
            | error stop' => exact trivial
            | ok request' =>
                rw [reached'] at same
                cases same
        | ok request =>
            rw [reached] at same
            cases reached' : message'.outcome J limit with
            | error stop' =>
                rw [reached'] at same
                cases same
            | ok request' =>
                rw [reached'] at same
                exact (List.forall₂_cons.mp same).1

/-- Callbacks behind the last message that are charged alike end alike. -/
theorem judge_unfinished
    {rest rest' : List Callback}
    (recased : List.Forall₂ Callback.Recased rest rest')
    (quiet : ∀ callback ∈ rest, ¬ callback.Ends)
    (quiet' : ∀ callback ∈ rest', ¬ callback.Ends)
    (errno : Errno) (log log' : List (HttpRequest J × Bool)) :
    (judge record (Impl.new limit) (rest, errno) log).1 =
      (judge record (Impl.new limit) (rest', errno) log').1 := by
  have within : (Impl.new limit).headerBytes ≤ (Impl.new limit).maxHeaderBytes :=
    Nat.zero_le _
  have charged : _ = _ := chargedAlike_of_recased recased
  simp only [judge, Impl.foldlM_absorb record quiet within,
    Impl.foldlM_absorb record quiet' within, charged]
  split_ifs <;> rfl

/-- How the parser ends on a stream. -/
def verdictOn
    (J : Type) [Json J] (llhttp : Llhttp) (limit : Nat)
    (chunks : List StdString) : Option (Except CxxException Nat) :=
  ((HttpParser.new llhttp limit).feed (record (J := J)) chunks []).1.verdict

/-- The verdict, from what is read of the messages. -/
theorem verdictOn_eq
    {llhttp : Llhttp} {chunks : List StdString} {rest : List Callback}
    (reports : llhttp.Reports chunks messages rest) :
    verdictOn J llhttp limit chunks =
      match readMessages J limit messages with
      | (.ok (), delivered) =>
          (judge record (Impl.new limit)
            (rest, (llhttp.feed llhttp.init chunks).2) delivered).1
      | (.error (.failed _ headerLimitHit), _) =>
          some (.ok (if headerLimitHit then 431 else 400))
      | (.error (.escaped exception), _) => some (.error exception) := by
  have judged :=
    congrArg Prod.fst
      (feed_judge (J := J) record (HttpParser.new llhttp limit) chunks [])
  have stream := run_messages (J := J) limit messages rest []
  refine Eq.trans judged ?_
  show (judge record (Impl.new limit) (llhttp.feed llhttp.init chunks) []).1 = _
  rw [judge, reports.1, stream]
  cases readMessages J limit messages with
  | mk result delivered =>
  cases result with
  | error stop => cases stop <;> rfl
  | ok done => rfl

/--
Two streams that differ in the case of header names only deliver the same
bodies and are accepted or rejected alike if and only if no spelling decides
whether a body is JSON.
-/
theorem header_case_iff
    (llhttp : Llhttp) (maxHeaderBytes : Nat)
    {chunks chunks' : List StdString}
    {messages messages' : List ReportedMessage}
    {rest rest' : List Callback}
    (differ :
      llhttp.DifferInCase chunks chunks' messages messages' rest rest') :
    SameBodies (deliveries J llhttp maxHeaderBytes chunks)
          (deliveries J llhttp maxHeaderBytes chunks') ∧
        verdictOn J llhttp maxHeaderBytes chunks =
          verdictOn J llhttp maxHeaderBytes chunks' ↔
      SpellingsFree J maxHeaderBytes messages messages' := by
  rw [deliveries_of_reports differ.reports,
    deliveries_of_reports differ.reports']
  constructor
  · rintro ⟨same, -⟩
    exact spellingsFree_of_read differ.recased same
  · intro free
    rcases read_of_spellingsFree differ.recased free with ⟨result, same⟩
    refine ⟨same, ?_⟩
    rw [verdictOn_eq differ.reports, verdictOn_eq differ.reports']
    revert result
    cases readMessages J maxHeaderBytes messages with
    | mk read delivered =>
    cases readMessages J maxHeaderBytes messages' with
    | mk read' delivered' =>
    rintro rfl
    cases read with
    | error stop => cases stop <;> rfl
    | ok done =>
        dsimp only
        rw [differ.errno]
        exact
          judge_unfinished differ.unfinished differ.reports.2
            differ.reports'.2 _ delivered delivered'

end Messages

/-! ## Examples -/

/-- No name is repeated in a message, in whatever case. -/
def ReportedMessage.NamesDistinct (message : ReportedMessage) : Prop :=
  ((message.fields ++ message.trailers).map fun field =>
    field.entry.1.map lowerCase).Nodup

/--
What llhttp reports of a request with a JSON body, its names spelled as
given.
-/
def jsonPost
    (length type : StdString) (lengthNamed : length ≠ [])
    (typeNamed : type ≠ []) : ReportedMessage where
  target := [ascii "/items"]
  fields :=
    [.single length (ascii "4") lengthNamed,
      .single type (ascii "application/json") typeNamed]
  body := [ascii "null"]
  trailers := []
  info := ⟨ascii "POST", 1, 1, true⟩

/-- The spelling of the standard. -/
def standardPost : ReportedMessage :=
  jsonPost (ascii "Content-Length") (ascii "Content-Type") (by decide)
    (by decide)

/-- The length in lower case. -/
def lowerLengthPost : ReportedMessage :=
  jsonPost (ascii "content-length") (ascii "Content-Type") (by decide)
    (by decide)

/-- All names in lower case. -/
def lowerPost : ReportedMessage :=
  jsonPost (ascii "content-length") (ascii "content-type") (by decide)
    (by decide)

/-- The bytes of such a request. -/
def jsonPostBytes (length type : StdString) : StdString :=
  ascii "POST /items HTTP/1.1\r\n" ++ length ++ ascii ": 4\r\n" ++ type ++
    ascii ": application/json\r\n\r\nnull"

def standardBytes : StdString :=
  jsonPostBytes (ascii "Content-Length") (ascii "Content-Type")

def lowerLengthBytes : StdString :=
  jsonPostBytes (ascii "content-length") (ascii "Content-Type")

def lowerBytes : StdString :=
  jsonPostBytes (ascii "content-length") (ascii "content-type")

def jsonPosts : Llhttp :=
  scriptedLlhttp
    [(standardBytes, standardPost.callbacks),
      (lowerLengthBytes, lowerLengthPost.callbacks),
      (lowerBytes, lowerPost.callbacks)]

theorem jsonPost_recased
    {length length' type type' : StdString}
    (lengthNamed : length ≠ []) (lengthNamed' : length' ≠ [])
    (typeNamed : type ≠ []) (typeNamed' : type' ≠ [])
    (sameLength : SameButCase length length')
    (sameType : SameButCase type type') :
    (jsonPost length type lengthNamed typeNamed).Recased
      (jsonPost length' type' lengthNamed' typeNamed') where
  target := rfl
  fields :=
    .cons ⟨.cons sameLength .nil, rfl⟩ (.cons ⟨.cons sameType .nil, rfl⟩ .nil)
  body := rfl
  trailers := .nil
  info := rfl

theorem standardPost_recased_length : standardPost.Recased lowerLengthPost :=
  jsonPost_recased _ _ _ _ (by decide +kernel) rfl

theorem standardPost_recased : standardPost.Recased lowerPost :=
  jsonPost_recased _ _ _ _ (by decide +kernel) (by decide +kernel)

theorem jsonPosts_differInCase_length :
    jsonPosts.DifferInCase [standardBytes] [lowerLengthBytes] [standardPost]
      [lowerLengthPost] [] [] where
  reports := ⟨by decide +kernel, by simp⟩
  reports' := ⟨by decide +kernel, by simp⟩
  recased := .cons standardPost_recased_length .nil
  unfinished := .nil
  errno := by decide +kernel

theorem jsonPosts_differInCase :
    jsonPosts.DifferInCase [standardBytes] [lowerBytes] [standardPost]
      [lowerPost] [] [] where
  reports := ⟨by decide +kernel, by simp⟩
  reports' := ⟨by decide +kernel, by simp⟩
  recased := .cons standardPost_recased .nil
  unfinished := .nil
  errno := by decide +kernel

theorem header_case_iff_length :
    SameBodies
        (deliveries FlatJson jsonPosts kMaxHeaderBytes [standardBytes])
        (deliveries FlatJson jsonPosts kMaxHeaderBytes [lowerLengthBytes]) ∧
      verdictOn FlatJson jsonPosts kMaxHeaderBytes [standardBytes] =
        verdictOn FlatJson jsonPosts kMaxHeaderBytes [lowerLengthBytes] := by
  refine
    (header_case_iff (J := FlatJson) jsonPosts kMaxHeaderBytes
      jsonPosts_differInCase_length).mpr ?_
  refine ⟨Or.inr (Or.inr ?_), fun _ => trivial⟩
  exact iff_of_true (by decide +kernel) (by decide +kernel)

/-- With the names in lower case the same body arrives as text. -/
theorem header_case_decides :
    ¬ ∀ (llhttp : Llhttp) (chunks chunks' : List StdString)
        (messages messages' : List ReportedMessage)
        (rest rest' : List Callback),
        llhttp.DifferInCase chunks chunks' messages messages' rest rest' →
        (∀ message ∈ messages, message.NamesDistinct) →
        SameBodies (deliveries FlatJson llhttp kMaxHeaderBytes chunks)
            (deliveries FlatJson llhttp kMaxHeaderBytes chunks') ∧
          verdictOn FlatJson llhttp kMaxHeaderBytes chunks =
            verdictOn FlatJson llhttp kMaxHeaderBytes chunks' := by
  intro claim
  have same :=
    (claim jsonPosts _ _ _ _ _ _ jsonPosts_differInCase (by
      intro message member
      obtain rfl := List.mem_singleton.mp member
      show List.Nodup _
      decide +kernel)).1
  have types := same.types
  revert types
  decide +kernel

end PlusWeb
