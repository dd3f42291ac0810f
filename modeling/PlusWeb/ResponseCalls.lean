import PlusWeb.HandleRequest

/-!
# What a handler can do to its response, and the declared length

The calls a handler can make on the response and on bodies of its own: the
setters of `HttpBody`, the `send` overloads, copies and moves.  A run of such
calls starts from the fresh response and ends in the response
`handleRequest` completes.

`HttpBody::length` and `serialize` are two case analyses over the body type.
They agree on text, JSON and binary bodies and on the empty body.  A form is
counted but not written.  The stored text of a JSON body is its dump as long
as the body was not moved from.
-/

namespace PlusWeb

variable {J : Type} [Json J]

/-- The setters of `HttpBody`. -/
inductive BodySetter (J : Type) where
  | json (j : J)
  | text (text : StdString)
  | form (form : StdMap)
  | binary (data : StdString)

/-- Call a setter. -/
def BodySetter.run : BodySetter J → Action CxxException (HttpBody J)
  | .json j => HttpBody.setJson j
  | .text value => Action.modify (·.setText value)
  | .form pairs => Action.modify (·.setFormData pairs)
  | .binary data => Action.modify (·.setBinary data)

/-- The response and the bodies a handler holds in variables of its own. -/
structure Draft (J : Type) where
  response : HttpResponse J
  locals : Nat → HttpBody J

namespace Draft

/-- The fresh response and bodies no setter was called on. -/
def new : Draft J where
  response := HttpResponse.fresh
  locals _ := HttpBody.new

def setLocal (draft : Draft J) (slot : Nat) (body : HttpBody J) :
    Draft J :=
  { draft with
    locals := fun other => if other = slot then body else draft.locals other }

end Draft

/--
The calls.  `set` is a setter on `response.Body`, the `local` calls work
on the handler's own bodies, and `sendMoved` leaves an unspecified body
behind.
-/
inductive ResponseCall (J : Type) where
  | status (status : Int)
  | setHeader (key value : StdString)
  | setHeaders (pairs : StdMap)
  | sendJson (j : J)
  | sendText (text : StdString)
  | sendCString (text : StdString)
  | sendForm (form : StdMap)
  | sendBinary (data : StdString)
  | set (setter : BodySetter J)
  | localNew (slot : Nat)
  | localSet (slot : Nat) (setter : BodySetter J)
  | localCopy (slot source : Nat)
  | sendCopied (slot : Nat)
  | sendMoved (slot : Nat) (husk : HttpBody.Husk)

namespace ResponseCall

/-- Make one call. -/
def run : ResponseCall J → Action CxxException (Draft J)
  | .status code => Action.modify fun draft =>
      { draft with response := draft.response.setStatus code }
  | .setHeader key value => Action.modify fun draft =>
      { draft with response := draft.response.setHeader key value }
  | .setHeaders pairs => Action.modify fun draft =>
      { draft with response := draft.response.setHeaders pairs }
  | .sendJson j => fun draft =>
      let (outcome, response) := draft.response.sendJson j
      (outcome, { draft with response := response })
  | .sendText text => Action.modify fun draft =>
      { draft with response := draft.response.sendText text }
  | .sendCString text => Action.modify fun draft =>
      { draft with response := draft.response.sendCString text }
  | .sendForm form => Action.modify fun draft =>
      { draft with response := draft.response.sendForm form }
  | .sendBinary data => Action.modify fun draft =>
      { draft with response := draft.response.sendBinary data }
  | .set setter => fun draft =>
      let (outcome, body) := setter.run draft.response.body
      (outcome, { draft with response := { draft.response with body := body } })
  | .localNew slot => Action.modify (·.setLocal slot HttpBody.new)
  | .localSet slot setter => fun draft =>
      let (outcome, body) := setter.run (draft.locals slot)
      (outcome, draft.setLocal slot body)
  | .localCopy slot source => Action.modify fun draft =>
      draft.setLocal slot (draft.locals source)
  | .sendCopied slot => Action.modify fun draft =>
      { draft with response := draft.response.sendBody (draft.locals slot) }
  | .sendMoved slot husk => Action.modify fun draft =>
      { draft with
        response := draft.response.sendMovedBody (draft.locals slot) }.setLocal
          slot ((draft.locals slot).movedFrom husk)

/-- Make the calls in order. -/
def runAll : List (ResponseCall J) → Action CxxException (Draft J)
  | [] => Action.skip
  | call :: calls => Action.seq call.run (runAll calls)

/-- The JSON value of the call, if it has one, can be dumped. -/
def Dumps : ResponseCall J → Prop
  | .sendJson j => ∃ text, Json.dump j = .ok text
  | .set (.json j) => ∃ text, Json.dump j = .ok text
  | .localSet _ (.json j) => ∃ text, Json.dump j = .ok text
  | _ => True

end ResponseCall

/-! ## Bodies the calls can build -/

/--
What holds of every body: no setter makes a multipart body, and a JSON
body can be dumped.
-/
structure HttpBody.Serializable (body : HttpBody J) : Prop where
  notMultipart : body.type ≠ .multipart
  dumps : body.type = .json → ∃ text, Json.dump body.jsonData = .ok text

/--
What holds of a body that was not moved from: the stored text is the dump
of the JSON value, or the encoding of the form.
-/
structure HttpBody.Sound (body : HttpBody J) : Prop where
  json : body.type = .json → Json.dump body.jsonData = .ok body.rawData
  form : body.type = .formData →
    body.rawData = HttpBody.encodeFormData body.formData

namespace HttpBody

theorem serializable_new : (new : HttpBody J).Serializable where
  notMultipart := by simp [new]
  dumps := by simp [new]

theorem sound_new : (new : HttpBody J).Sound where
  json := by simp [new]
  form := by simp [new]

theorem serializable_movedFrom
    {body : HttpBody J} (serializable : body.Serializable) (husk : Husk)
    (nullDumps : ∃ text, Json.dump (Json.null : J) = .ok text) :
    (body.movedFrom husk).Serializable where
  notMultipart := serializable.notMultipart
  dumps _ := nullDumps

/-- What a setter makes is sound, whatever the body was before. -/
theorem sound_setter
    {setter : BodySetter J} {body after : HttpBody J}
    (returned : setter.run body = (.returned, after)) :
    after.Serializable ∧ after.Sound := by
  cases setter with
  | json j =>
      simp only [BodySetter.run, setJson] at returned
      split at returned
      case h_1 text dumped =>
        obtain rfl := (Prod.mk.inj returned).2
        exact
          ⟨⟨by simp, fun _ => ⟨text, dumped⟩⟩,
            ⟨fun _ => dumped, by simp⟩⟩
      case h_2 => simp at returned
  | text text =>
      obtain rfl := (Prod.mk.inj returned).2
      exact ⟨⟨by simp [setText], by simp [setText]⟩,
        ⟨by simp [setText], by simp [setText]⟩⟩
  | form form =>
      obtain rfl := (Prod.mk.inj returned).2
      exact ⟨⟨by simp [setFormData], by simp [setFormData]⟩,
        ⟨by simp [setFormData], by simp [setFormData]⟩⟩
  | binary data =>
      obtain rfl := (Prod.mk.inj returned).2
      exact ⟨⟨by simp [setBinary], by simp [setBinary]⟩,
        ⟨by simp [setBinary], by simp [setBinary]⟩⟩

/-- A setter with a dumpable argument returns. -/
theorem setter_returns
    (setter : BodySetter J) (body : HttpBody J)
    (dumps : (ResponseCall.set setter).Dumps) :
    ∃ after, setter.run body = (.returned, after) := by
  cases setter with
  | json j =>
      rcases dumps with ⟨text, dumped⟩
      simp [BodySetter.run, setJson, dumped]
  | text text => exact ⟨_, rfl⟩
  | form form => exact ⟨_, rfl⟩
  | binary data => exact ⟨_, rfl⟩

/-! ## Length and serialization -/

/-- The encoding of a form is empty only if the form is. -/
theorem encodeFormData_eq_nil_iff (form : StdMap) :
    encodeFormData form = [] ↔ form = ∅ := by
  have step (pairs : List (StdString × StdString)) (start : StdString) :
      pairs.foldl
          (fun result pair =>
            (if result ≠ [] then result ++ ascii "&" else result) ++
              (pair.1 ++ ascii "=" ++ pair.2))
          start = [] ↔ start = [] ∧ pairs = [] := by
    induction pairs generalizing start with
    | nil => simp
    | cons pair pairs induction =>
        rw [List.foldl_cons, induction]
        simp [ascii]
  rw [encodeFormData, step]
  simp [Std.ExtTreeMap.toList_eq_nil_iff]

/--
The cases in which both analyses of the body give the same length: a form
without bytes, and a JSON value whose dump is as long as the stored text.
-/
@[mk_iff]
structure Framed (body : HttpBody J) : Prop where
  form : body.type = .formData → body.rawData = []
  json : body.type = .json → ∀ text,
    Json.dump body.jsonData = .ok text → text.length = body.rawData.length

/--
A serializable body is written, and its length is the declared one
exactly if it is framed.
-/
theorem bodySection_length
    {response : HttpResponse J} (serializable : response.body.Serializable) :
    ∃ text, response.bodySection = .ok text ∧
      (response.body.length = text.length ↔ response.body.Framed) := by
  rcases serializable with ⟨notMultipart, dumps⟩
  unfold HttpResponse.bodySection length
  cases kind : response.body.type with
  | empty => exact ⟨[], rfl, by simp [framed_iff, kind]⟩
  | text => exact ⟨_, rfl, by simp [framed_iff, kind]⟩
  | binary => exact ⟨_, rfl, by simp [framed_iff, kind]⟩
  | formData => exact ⟨[], rfl, by simp [framed_iff, kind]⟩
  | multipart => exact absurd kind notMultipart
  | json =>
      rcases dumps kind with ⟨text, dumped⟩
      refine ⟨text, dumped, ?_⟩
      simp [framed_iff, kind, dumped, eq_comm]

/--
Unless it was moved from, a body is framed exactly if it is no form with
entries.
-/
theorem Sound.framed_iff
    {body : HttpBody J} (sound : body.Sound) :
    body.Framed ↔ ¬ (body.type = .formData ∧ body.formData ≠ ∅) := by
  constructor
  · rintro ⟨noBytes, -⟩ ⟨kind, entries⟩
    have empty := noBytes kind
    rw [sound.form kind, encodeFormData_eq_nil_iff] at empty
    exact entries empty
  · intro noForm
    constructor
    · intro kind
      rw [sound.form kind, encodeFormData_eq_nil_iff]
      by_contra entries
      exact noForm ⟨kind, entries⟩
    · intro kind text dumped
      have same : text = body.rawData := by
        simpa [sound.json kind] using dumped.symm
      rw [same]

end HttpBody

/-! ## Runs of calls -/

/-- The bodies that were moved from, after the call. -/
def ResponseCall.marks (moved : Nat → Bool) :
    ResponseCall J → Nat → Bool
  | .sendMoved slot _ => fun other => other = slot || moved other
  | .localNew slot => fun other => other ≠ slot && moved other
  | .localSet slot _ => fun other => other ≠ slot && moved other
  | .localCopy slot source => fun other =>
      if other = slot then moved source else moved other
  | _ => moved

/-- No call sends a body that was moved from. -/
def SendsIntact : (Nat → Bool) → List (ResponseCall J) → Prop
  | _, [] => True
  | moved, call :: calls =>
      (match call with
        | .sendCopied slot => moved slot = false
        | .sendMoved slot _ => moved slot = false
        | _ => True) ∧
        SendsIntact (call.marks moved) calls

/-- Every body of the draft is serializable. -/
structure Draft.Serializable (draft : Draft J) : Prop where
  response : draft.response.body.Serializable
  locals : ∀ slot, (draft.locals slot).Serializable

/-- The response and the bodies not moved from are sound. -/
structure Draft.Sound (moved : Nat → Bool) (draft : Draft J) : Prop where
  response : draft.response.body.Sound
  locals : ∀ slot, moved slot = false → (draft.locals slot).Sound

/-- A call that only gives the response another body. -/
theorem Draft.step_response
    {draft after : Draft J} (locals : after.locals = draft.locals)
    (good : after.response.body.Serializable ∧ after.response.body.Sound)
    (serializable : draft.Serializable) :
    after.Serializable ∧
      ∀ moved, draft.Sound moved → after.Sound moved := by
  refine ⟨⟨good.1, ?_⟩, fun moved sound => ⟨good.2, ?_⟩⟩
  · rw [locals]
    exact serializable.locals
  · rw [locals]
    exact sound.locals

/-- A call that leaves all bodies alone. -/
theorem Draft.step_headers
    {draft after : Draft J} (locals : after.locals = draft.locals)
    (body : after.response.body = draft.response.body)
    (serializable : draft.Serializable) :
    after.Serializable ∧
      ∀ moved, draft.Sound moved → after.Sound moved := by
  refine ⟨⟨?_, ?_⟩, fun moved sound => ⟨?_, ?_⟩⟩
  · rw [body]
    exact serializable.response
  · rw [locals]
    exact serializable.locals
  · rw [body]
    exact sound.response
  · rw [locals]
    exact sound.locals

/-- A call that only gives one of the handler's bodies another value. -/
theorem Draft.step_local
    {draft : Draft J} (slot : Nat) {body : HttpBody J}
    (good : body.Serializable) (serializable : draft.Serializable) :
    (draft.setLocal slot body).Serializable ∧
      ∀ {moved moved' : Nat → Bool},
        (∀ other, other ≠ slot → moved' other = moved other) →
        (moved' slot = false → body.Sound) →
        draft.Sound moved → (draft.setLocal slot body).Sound moved' := by
  constructor
  · refine ⟨serializable.response, fun other => ?_⟩
    simp only [Draft.setLocal]
    split
    · exact good
    · exact serializable.locals other
  · intro moved moved' others own sound
    refine ⟨sound.response, fun other intact => ?_⟩
    simp only [Draft.setLocal]
    split
    case isTrue same => exact own (same ▸ intact)
    case isFalse different =>
      exact sound.locals other (others other different ▸ intact)

/--
One call keeps every body serializable, and, if it sends no body that
was moved from, keeps the others sound.
-/
theorem ResponseCall.run_step
    {call : ResponseCall J} (dumps : call.Dumps)
    (nullDumps : ∃ text, Json.dump (Json.null : J) = .ok text)
    {draft : Draft J} (serializable : draft.Serializable) :
    ∃ after, call.run draft = (.returned, after) ∧ after.Serializable ∧
      ∀ moved, SendsIntact moved [call] → draft.Sound moved →
        after.Sound (call.marks moved) := by
  have respond {after : Draft J} (setter : BodySetter J)
      (locals : after.locals = draft.locals)
      (made :
        setter.run draft.response.body =
          (.returned, after.response.body)) :
      after.Serializable ∧
        ∀ moved, SendsIntact moved [call] → draft.Sound moved →
          after.Sound moved := by
    have step :=
      Draft.step_response locals (HttpBody.sound_setter made) serializable
    exact ⟨step.1, fun moved _ => step.2 moved⟩
  have keep {after : Draft J}
      (locals : after.locals = draft.locals)
      (body : after.response.body = draft.response.body) :
      after.Serializable ∧
        ∀ moved, SendsIntact moved [call] → draft.Sound moved →
          after.Sound moved := by
    have step := Draft.step_headers locals body serializable
    exact ⟨step.1, fun moved _ => step.2 moved⟩
  cases call with
  | status code => exact ⟨_, rfl, keep rfl rfl⟩
  | setHeader key value => exact ⟨_, rfl, keep rfl rfl⟩
  | setHeaders pairs => exact ⟨_, rfl, keep rfl (by simp)⟩
  | sendJson j =>
      obtain ⟨body, made⟩ :=
        HttpBody.setter_returns (.json j) draft.response.body dumps
      rcases HttpResponse.sendJson_eq j draft.response with ⟨outcome, sent⟩
      have set : HttpBody.setJson j draft.response.body =
          (.returned, body) := made
      rw [set] at outcome sent
      refine
        ⟨{ draft with response := (draft.response.sendJson j).2 }, ?_,
          respond (.json j) rfl (by rw [made, sent])⟩
      simp [ResponseCall.run, outcome]
  | sendText text => exact ⟨_, rfl, respond (.text text) rfl rfl⟩
  | sendCString text =>
      exact ⟨_, rfl, respond (.text (StdString.cStr text)) rfl rfl⟩
  | sendForm form => exact ⟨_, rfl, respond (.form form) rfl rfl⟩
  | sendBinary data => exact ⟨_, rfl, respond (.binary data) rfl rfl⟩
  | set setter =>
      obtain ⟨body, made⟩ :=
        HttpBody.setter_returns setter draft.response.body dumps
      refine
        ⟨{ draft with response := { draft.response with body := body } }, ?_,
          respond setter rfl made⟩
      simp [ResponseCall.run, made]
  | localNew slot =>
      have step :=
        Draft.step_local slot HttpBody.serializable_new
          serializable
      refine ⟨_, rfl, step.1, fun moved _ => step.2 ?_ ?_⟩
      · intro other different
        simp [ResponseCall.marks, different]
      · exact fun _ => HttpBody.sound_new
  | localSet slot setter =>
      obtain ⟨body, made⟩ :=
        HttpBody.setter_returns setter (draft.locals slot) (by
          cases setter <;> exact dumps)
      have good := HttpBody.sound_setter made
      have step := Draft.step_local slot good.1 serializable
      refine
        ⟨draft.setLocal slot body, ?_, step.1, fun moved _ => step.2 ?_ ?_⟩
      · simp [ResponseCall.run, made]
      · intro other different
        simp [ResponseCall.marks, different]
      · exact fun _ => good.2
  | localCopy slot source =>
      have step :=
        Draft.step_local slot (serializable.locals source)
          serializable
      refine
        ⟨_, rfl, step.1, fun moved _ sound => step.2 ?_ ?_ sound⟩
      · intro other different
        simp [ResponseCall.marks, different]
      · intro intact
        exact sound.locals source (by simpa [ResponseCall.marks] using intact)
  | sendCopied slot =>
      refine ⟨_, rfl, ⟨?_, serializable.locals⟩, ?_⟩
      · simpa using serializable.locals slot
      · rintro moved ⟨intact, -⟩ sound
        exact ⟨by simpa using sound.locals slot intact, sound.locals⟩
  | sendMoved slot husk =>
      have sent :
          ({ draft with
            response :=
              draft.response.sendMovedBody (draft.locals slot) } :
                Draft J).Serializable :=
        ⟨by simpa using serializable.locals slot, serializable.locals⟩
      have step :=
        Draft.step_local slot
          (HttpBody.serializable_movedFrom (serializable.locals slot) husk
            nullDumps) sent
      refine ⟨_, rfl, step.1, ?_⟩
      rintro moved ⟨intact, -⟩ sound
      refine @step.2 moved _ ?_ ?_ ?_
      · intro other different
        simp [ResponseCall.marks, different]
      · simp [ResponseCall.marks]
      · exact ⟨by simpa using sound.locals slot intact, sound.locals⟩

/--
A run of calls returns, keeps every body serializable, and, if it sends
no body that was moved from, leaves a sound response.
-/
theorem ResponseCall.runAll_sound
    {calls : List (ResponseCall J)} (dumps : ∀ call ∈ calls, call.Dumps)
    (nullDumps : ∃ text, Json.dump (Json.null : J) = .ok text)
    {draft : Draft J} (serializable : draft.Serializable) :
    ∃ after, runAll calls draft = (.returned, after) ∧
      after.Serializable ∧
      ∀ moved, SendsIntact moved calls → draft.Sound moved →
        after.response.body.Sound := by
  induction calls generalizing draft with
  | nil => exact ⟨draft, rfl, serializable, fun _ _ sound => sound.response⟩
  | cons call calls induction =>
      obtain ⟨middle, ran, good, step⟩ :=
        run_step (dumps call (List.mem_cons_self ..)) nullDumps serializable
      obtain ⟨after, rest, final, sound⟩ :=
        induction (fun later member =>
          dumps later (List.mem_cons_of_mem _ member)) good
      refine ⟨after, ?_, final, ?_⟩
      · rw [runAll, Action.seq, ran]
        exact rest
      · rintro moved ⟨now, later⟩ before
        exact sound _ later (step moved ⟨now, trivial⟩ before)

/-! ## The declared length -/

/--
`Content-Length` is the number of bytes that `serialize` writes after the
blank line, into `head` and `body` together.
-/
def HttpResponse.LengthAgrees
    (response : HttpResponse J) (memory : Int) (splitAbove : Nat) : Prop :=
  ∃ head body text,
    response.serialize memory splitAbove true = .ok (head, body) ∧
      head ++ body = response.headSection memory ++ text ∧
      response.headers[ascii "Content-Length"]? =
        some (StdString.ofNat text.length)

omit [Json J] in
theorem HttpResponse.complete_contentLength
    (response : HttpResponse J) (keepAlive : Bool) :
    (response.complete keepAlive).headers[ascii "Content-Length"]? =
      some (StdString.ofNat response.body.length) := by
  simp [complete, setHeader]

theorem HttpResponse.serialize_append
    {response : HttpResponse J} {text : StdString}
    (written : response.bodySection = .ok text)
    (memory : Int) (splitAbove : Nat) :
    ∃ head body,
      response.serialize memory splitAbove true = .ok (head, body) ∧
        head ++ body = response.headSection memory ++ text := by
  cases serialized : response.serialize memory splitAbove true with
  | error what =>
      simp only [serialize, written, ↓reduceIte] at serialized
      split_ifs at serialized
  | ok parts =>
      obtain ⟨own, same, -, cut⟩ := serialize_sections serialized
      rw [if_pos rfl, written] at same
      obtain rfl := Except.ok.inj same
      exact ⟨parts.1, parts.2, rfl, cut⟩

/--
A completed response declares the length it writes exactly if its body is
framed.
-/
theorem HttpResponse.lengthAgrees_iff
    {response : HttpResponse J} (serializable : response.body.Serializable)
    (keepAlive : Bool) (memory : Int) (splitAbove : Nat) :
    (response.complete keepAlive).LengthAgrees memory splitAbove ↔
      response.body.Framed := by
  rcases HttpBody.bodySection_length serializable with ⟨text, written, same⟩
  have written' :
      (response.complete keepAlive).bodySection = .ok text := written
  obtain ⟨head, body, serialized, cut⟩ :=
    serialize_append written' memory splitAbove
  rw [← same]
  constructor
  · rintro ⟨head', body', text', serialized', cut', declared⟩
    rw [serialized] at serialized'
    obtain ⟨rfl, rfl⟩ : head = head' ∧ body = body' := by
      simpa using serialized'
    rw [cut, List.append_cancel_left_eq] at cut'
    subst cut'
    rw [complete_contentLength] at declared
    exact StdString.ofNat_inj.mp (Option.some.inj declared)
  · intro equal
    refine ⟨head, body, text, serialized, cut, ?_⟩
    rw [complete_contentLength, equal]

/--
The declared length after any calls a handler can make.

The calls return, and the length `handleRequest` declares is the number of
body bytes exactly if the response's body is framed.  Without sending a body
again that was moved from, this means that the body is no form with
entries.
-/
theorem contentLength_iff
    {calls : List (ResponseCall J)} (dumps : ∀ call ∈ calls, call.Dumps)
    (nullDumps : ∃ text, Json.dump (Json.null : J) = .ok text)
    (keepAlive : Bool) (memory : Int) (splitAbove : Nat) :
    ∃ draft, ResponseCall.runAll calls Draft.new = (.returned, draft) ∧
      ((draft.response.complete keepAlive).LengthAgrees memory splitAbove ↔
        draft.response.body.Framed) ∧
      (SendsIntact (fun _ => false) calls →
        ((draft.response.complete keepAlive).LengthAgrees memory
            splitAbove ↔
          ¬ (draft.response.body.type = .formData ∧
            draft.response.body.formData ≠ ∅))) := by
  obtain ⟨draft, returned, serializable, sound⟩ :=
    ResponseCall.runAll_sound dumps nullDumps
      (⟨HttpBody.serializable_new, fun _ => HttpBody.serializable_new⟩ :
        (Draft.new : Draft J).Serializable)
  have agrees :=
    HttpResponse.lengthAgrees_iff serializable.response keepAlive memory
      splitAbove
  refine ⟨draft, returned, agrees, fun intact => ?_⟩
  rw [agrees]
  exact
    (sound _ intact
      ⟨HttpBody.sound_new, fun _ _ => HttpBody.sound_new⟩).framed_iff

/-- A JSON value, then a text over it. -/
def overwritingCalls : List (ResponseCall FlatJson) :=
  [.sendJson (.object [(ascii "a", ascii "b")]), .status 200,
    .sendText (ascii "hi")]

theorem contentLength_iff_overwriting :
    ∃ draft,
      ResponseCall.runAll overwritingCalls Draft.new = (.returned, draft) ∧
        ((draft.response.complete true).LengthAgrees 0 0 ↔
          draft.response.body.Framed) := by
  obtain ⟨draft, returned, agrees, -⟩ :=
    @contentLength_iff FlatJson _ overwritingCalls
      (by
        intro call member
        fin_cases member
        · exact ⟨ascii "\x7b\"a\":\"b\"\x7d", by decide +kernel⟩
        · trivial
        · trivial)
      ⟨ascii "null", rfl⟩ true 0 0
  exact ⟨draft, returned, agrees⟩

/-- The form `a=b` is three bytes long and nothing is written. -/
theorem contentLength_form :
    ∃ draft,
      ResponseCall.runAll
          [.sendForm ((∅ : StdMap).insert (ascii "a") (ascii "b"))]
          (Draft.new : Draft FlatJson) =
        (.returned, draft) ∧
        ¬ (draft.response.complete true).LengthAgrees 0 0 := by
  refine ⟨_, rfl, ?_⟩
  intro agrees
  rw [HttpResponse.lengthAgrees_iff
    ⟨by decide, fun json => absurd json (by decide)⟩] at agrees
  exact absurd (agrees.form rfl) (by decide)

end PlusWeb
