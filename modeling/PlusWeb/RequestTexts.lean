import PlusWeb.Utf8
import PlusWeb.ParserDeliveries

/-!
# The texts of a request

The target is decoded before it is cut, so that the path and the query need
not be valid UTF-8 even if the target is plain ASCII.  If the decoded target
and the header spans are valid, so are the texts of the request: the target
is cut at ASCII bytes, and the header map holds what the spans add up to.
-/

namespace PlusWeb

open ListSearch

/-! ## Maps of valid texts -/

namespace StdMap

theorem utf8_empty : StdMap.Utf8 ∅ := by simp [StdMap.Utf8]

theorem Utf8.insert
    {map : StdMap} (valid : map.Utf8) {key value : StdString}
    (keyValid : ValidUtf8 key) (valueValid : ValidUtf8 value) :
    StdMap.Utf8 (map.insert key value) := by
  rintro ⟨name, text⟩ member
  have stored := Std.ExtTreeMap.mem_toList_iff_getElem?_eq_some.mp member
  rw [StdMap.getElem?_insert] at stored
  split_ifs at stored with own
  · obtain rfl := Option.some.inj stored
    exact ⟨own ▸ keyValid, valueValid⟩
  · exact
      valid _ (Std.ExtTreeMap.mem_toList_iff_getElem?_eq_some.mpr stored)

theorem Utf8.getElem?_getD
    {map : StdMap} (valid : map.Utf8) (key : StdString) :
    ValidUtf8 (map[key]?.getD []) := by
  cases stored : map[key]? with
  | none => exact validUtf8_nil
  | some value =>
      exact
        (valid _
          (Std.ExtTreeMap.mem_toList_iff_getElem?_eq_some.mpr stored)).2

end StdMap

/-! ## The target -/

theorem utf8_keptPart {text : StdString} (valid : ValidUtf8 text) :
    ValidUtf8 (keptPart text) := by
  by_cases marked : schemeMark <:+: text
  · rcases exists_first_mark marked with ⟨front, tail, cut, first⟩
    have mark : schemeMark = [colon, slash] ++ [slash] := by decide
    rw [cut, mark, List.append_assoc, List.append_assoc,
      ← List.append_assoc front] at valid
    have tailValid : ValidUtf8 tail :=
      (validUtf8_cut (by decide : slash < 128) valid).2
    rw [keptPart_of_first cut first]
    exact
      (by decide : ValidUtf8 [slash]).append
        (validUtf8_after (by decide) tailValid)
  · rwa [keptPart_of_notInfix marked]

theorem utf8_queryMap {text : StdString} (valid : ValidUtf8 text) :
    (queryMap text).Utf8 := by
  have pieces :=
    validUtf8_of_mem_pieces (by decide : ampersand < 128) valid
  unfold queryMap
  generalize Utils.pieces ampersand text = parts at pieces
  have started := StdMap.utf8_empty
  generalize (∅ : StdMap) = map at started ⊢
  induction parts generalizing map with
  | nil => exact started
  | cons piece parts induction =>
      rw [List.forall_mem_cons] at pieces
      rw [List.foldl_cons]
      apply induction pieces.2
      unfold recordPiece
      split_ifs
      · exact
          started.insert (validUtf8_before (by decide) pieces.1)
            (validUtf8_after (by decide) pieces.1)
      · exact started

/-- The texts of a request are valid. -/
structure HttpRequest.Utf8 {J : Type} (req : HttpRequest J) : Prop where
  method : ValidUtf8 req.method
  path : ValidUtf8 req.path
  protocol : ValidUtf8 req.protocol
  headers : req.headers.Utf8
  query : req.query.Utf8

/-- `applyTarget` keeps the texts valid if the decoded target is. -/
theorem utf8_applyTarget
    {J : Type} {target : StdString}
    (decoded : ValidUtf8 (Utils.urlDecode target)) {req : HttpRequest J}
    (valid : req.Utf8) (noQuery : req.query = ∅) :
    (applyTarget target req).Utf8 := by
  have kept := utf8_keptPart decoded
  rw [applyTarget, stripAuthority_eq, separateQuery_eq _ noQuery]
  refine ⟨valid.method, ?_, valid.protocol, valid.headers, ?_⟩
  · dsimp only
    split_ifs
    · decide
    · exact validUtf8_before (by decide) kept
  · exact
      utf8_queryMap
        (validUtf8_before (by decide) (validUtf8_after (by decide) kept))

/-! ## The headers -/

namespace Impl

/-- What is gathered of the headers is valid. -/
structure Utf8 (impl : Impl) : Prop where
  field : ValidUtf8 impl.field
  value : ValidUtf8 impl.value
  headers : impl.headers.Utf8

theorem utf8_new (maxHeaderBytes : Nat) : (new maxHeaderBytes).Utf8 :=
  ⟨validUtf8_nil, validUtf8_nil, StdMap.utf8_empty⟩

theorem utf8_resetRequest (impl : Impl) : impl.resetRequest.Utf8 :=
  ⟨validUtf8_nil, validUtf8_nil, StdMap.utf8_empty⟩

theorem Utf8.commitHeader {impl : Impl} (valid : impl.Utf8) :
    impl.commitHeader.Utf8 := by
  refine ⟨validUtf8_nil, validUtf8_nil, ?_⟩
  unfold Impl.commitHeader
  dsimp only
  split_ifs
  · exact valid.headers.insert valid.field valid.value
  · exact valid.headers

theorem utf8_absorbField
    {impl : Impl} (valid : impl.Utf8) {span : StdString}
    (spanValid : ValidUtf8 span) : (absorbField span impl).Utf8 := by
  unfold absorbField
  dsimp only
  split_ifs
  · have committed := valid.commitHeader
    exact
      ⟨committed.field.append spanValid, committed.value, committed.headers⟩
  · exact ⟨valid.field.append spanValid, valid.value, valid.headers⟩

theorem absorbField_target (span : StdString) (impl : Impl) :
    (absorbField span impl).target = impl.target := by
  unfold absorbField
  dsimp only
  split_ifs <;> rfl

/-- The lookup of a missing `Content-Type` adds an empty value. -/
theorem Utf8.requestBody
    {J : Type} [Json J] {impl : Impl} (valid : impl.Utf8)
    {headers : StdMap} {body : HttpBody J}
    (read : impl.requestBody = .ok (headers, body)) : headers.Utf8 := by
  have looked :=
    valid.headers.insert (by decide : ValidUtf8 (ascii "Content-Type"))
      (valid.headers.getElem?_getD (ascii "Content-Type"))
  unfold Impl.requestBody at read
  dsimp only at read
  split_ifs at read
  · obtain ⟨rfl, -⟩ := Prod.mk.inj (Except.ok.inj read)
    exact valid.headers
  · split at read
    · cases read
    · split at read
      · obtain ⟨rfl, -⟩ := Prod.mk.inj (Except.ok.inj read)
        exact looked
      · cases read
  · obtain ⟨rfl, -⟩ := Prod.mk.inj (Except.ok.inj read)
    exact looked

/-- A request built of valid headers and a valid decoded target is valid. -/
theorem Utf8.request
    {J : Type} [Json J] {impl : Impl} (valid : impl.Utf8)
    (decoded : ValidUtf8 (Utils.urlDecode impl.target))
    {info : MessageInfo} (method : ValidUtf8 info.method)
    {request : HttpRequest J} (built : impl.request info = .ok request) :
    request.Utf8 := by
  have number (value : Nat) : ValidUtf8 (StdString.ofNat value) := by
    apply validUtf8_of_ascii
    intro byte member
    exact UInt8.lt_of_le_of_lt (StdString.mem_ofNat member).2 (by decide)
  have protocol :
      ValidUtf8
        (ascii "HTTP/" ++ StdString.ofNat info.httpMajor ++ ascii "." ++
          StdString.ofNat info.httpMinor) :=
    (((by decide : ValidUtf8 (ascii "HTTP/")).append (number _)).append
      (by decide)).append (number _)
  unfold Impl.request at built
  cases read :
      (impl.requestBody : Except CxxException (StdMap × HttpBody J)) with
  | error exception =>
      rw [read] at built
      cases built
  | ok both =>
      rcases both with ⟨headers, body⟩
      have headersValid := valid.requestBody read
      rw [read] at built
      obtain rfl := Except.ok.inj built
      have routed :=
        @utf8_applyTarget J impl.target decoded
          { HttpRequest.new with
            method := info.method
            protocol :=
              ascii "HTTP/" ++ StdString.ofNat info.httpMajor ++ ascii "." ++
                StdString.ofNat info.httpMinor }
          ⟨method, validUtf8_nil, protocol, StdMap.utf8_empty,
            StdMap.utf8_empty⟩
          rfl
      exact
        ⟨routed.method, routed.path, routed.protocol, headersValid,
          routed.query⟩

end Impl

/-! ## The spans of a message -/

/--
The header spans are valid UTF-8, and at the end of each message so are the
method and the decoded target, which the spans of `onUrl` add up to.
-/
def SpansUtf8 : StdString → List Callback → Prop
  | _, [] => True
  | target, .url span :: callbacks => SpansUtf8 (target ++ span) callbacks
  | target, .headerField span :: callbacks
  | target, .headerValue span :: callbacks =>
      ValidUtf8 span ∧ SpansUtf8 target callbacks
  | target, .messageComplete info :: callbacks =>
      ValidUtf8 (Utils.urlDecode target) ∧ ValidUtf8 info.method ∧
        SpansUtf8 [] callbacks
  | target, _ :: callbacks => SpansUtf8 target callbacks

instance decidableSpansUtf8 :
    (target : StdString) → (callbacks : List Callback) →
      Decidable (SpansUtf8 target callbacks)
  | _, [] => inferInstanceAs (Decidable True)
  | target, .url span :: callbacks =>
      decidableSpansUtf8 (target ++ span) callbacks
  | target, .headerField _ :: callbacks
  | target, .headerValue _ :: callbacks =>
      have := decidableSpansUtf8 target callbacks
      inferInstanceAs (Decidable (_ ∧ _))
  | _, .messageComplete _ :: callbacks =>
      have := decidableSpansUtf8 [] callbacks
      inferInstanceAs (Decidable (_ ∧ _ ∧ _))
  | target, .headersComplete :: callbacks
  | target, .body _ :: callbacks => decidableSpansUtf8 target callbacks

namespace Impl

theorem Utf8.quietly
    {impl : Impl} (valid : impl.Utf8) {callback : Callback}
    (quiet : ¬ callback.Ends) {callbacks : List Callback}
    (spans : SpansUtf8 impl.target (callback :: callbacks)) {next : Impl}
    (goes : impl.quietly callback = .ok next) :
    next.Utf8 ∧ SpansUtf8 next.target callbacks := by
  have charged
      {absorb : StdString → Impl → Impl} {span : StdString}
      (goes : quietly.charged impl absorb span = .ok next) :
      next =
        absorb span
          (impl.setHeaderBytes (impl.headerBytes + span.length)) := by
    unfold quietly.charged at goes
    split_ifs at goes
    exact (Except.ok.inj goes).symm
  cases callback with
  | url span =>
      obtain rfl := charged goes
      exact ⟨⟨valid.field, valid.value, valid.headers⟩, spans⟩
  | headerField span =>
      obtain rfl := charged goes
      constructor
      · apply utf8_absorbField _ spans.1
        exact ⟨valid.field, valid.value, valid.headers⟩
      · rw [absorbField_target]
        exact spans.2
  | headerValue span =>
      obtain rfl := charged goes
      exact
        ⟨⟨valid.field, valid.value.append spans.1, valid.headers⟩, spans.2⟩
  | headersComplete =>
      obtain rfl := Except.ok.inj goes
      exact ⟨valid.commitHeader, spans⟩
  | body span =>
      obtain rfl := Except.ok.inj goes
      exact ⟨⟨valid.field, valid.value, valid.headers⟩, spans⟩
  | messageComplete info => exact absurd trivial quiet

/-- Every request that is delivered from valid spans has valid texts. -/
theorem Utf8.foldlM_record
    {J : Type} [Json J] {impl : Impl} (valid : impl.Utf8)
    {callbacks : List Callback} (spans : SpansUtf8 impl.target callbacks) :
    ∀ delivery ∈
        ((callbacks.foldlM (Impl.on record) impl).run
          ([] : List (HttpRequest J × Bool))).2,
      delivery.1.Utf8 := by
  induction callbacks generalizing impl with
  | nil => simp
  | cons callback callbacks induction =>
      rw [List.foldlM_cons, ParserM.run_bind]
      by_cases ends : callback.Ends
      · cases callback with
        | messageComplete info =>
            simp only [Impl.on]
            cases built : (impl.request info :
              Except CxxException (HttpRequest J)) with
            | error exception => simp [onMessageComplete, built]
            | ok request =>
                have later :=
                  induction (utf8_resetRequest impl) spans.2.2
                have recorded :=
                  Impl.foldlM_record (J := J) callbacks impl.resetRequest
                    [(request, info.shouldKeepAlive)] []
                rw [List.append_nil] at recorded
                simp only [onMessageComplete_run record built, record,
                  Action.modify, List.nil_append, recorded,
                  List.singleton_append, List.forall_mem_cons]
                exact
                  ⟨valid.request spans.1 spans.2.1 built, later⟩
        | _ => exact ends.elim
      · rw [on_quiet ends]
        cases goes : impl.quietly callback with
        | error stop => simp
        | ok next =>
            rcases valid.quietly ends spans goes with ⟨valid, spans⟩
            exact induction valid spans

end Impl

end PlusWeb
