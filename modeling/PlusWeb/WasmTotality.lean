import PlusWeb.RequestTexts
import PlusWeb.WasmDispatch

/-!
# Totality of the WebAssembly contract

`dump` throws on a string that is not valid UTF-8, and nothing in
`plusweb_wasm.cpp` catches that.  The strings of the documents come from the
registered routes, from the path of a dispatch and from what the parser makes
of a request, of which the percent-decoded target need not be valid even if
the request is plain ASCII.

If all of these are valid, every call returns a document of the documented
shape.
-/

namespace PlusWeb

namespace Document

/-- No string of the value and no key makes `dump` throw. -/
def Utf8 (document : Document) : Prop :=
  ∀ text ∈ document.strings, ValidUtf8 text

theorem utf8_string (text : StdString) :
    (Document.string text).Utf8 ↔ ValidUtf8 text := by
  simp [Utf8, strings]

theorem utf8_array (items : List Document) :
    (Document.array items).Utf8 ↔ ∀ item ∈ items, item.Utf8 := by
  unfold Utf8
  rw [strings]
  induction items with
  | nil => simp [stringsOfItems]
  | cons item items induction =>
      rw [stringsOfItems, List.forall_mem_append, induction,
        List.forall_mem_cons]

theorem utf8_object (members : List (StdString × Document)) :
    (Document.object members).Utf8 ↔
      ∀ member ∈ members, ValidUtf8 member.1 ∧ member.2.Utf8 := by
  unfold Utf8
  rw [strings]
  induction members with
  | nil => simp [stringsOfMembers]
  | cons member members induction =>
      rcases member with ⟨key, value⟩
      rw [stringsOfMembers, List.forall_mem_cons, List.forall_mem_append,
        induction, List.forall_mem_cons, and_assoc]

theorem utf8_null : Document.null.Utf8 := by simp [Utf8, strings]

theorem utf8_boolean (value : Bool) : (Document.boolean value).Utf8 := by
  simp [Utf8, strings]

theorem utf8_number (value : Int) : (Document.number value).Utf8 := by
  simp [Utf8, strings]

theorem utf8_float (bits : UInt64) : (Document.float bits).Utf8 := by
  simp [Utf8, strings]

/-- The value behind a key. -/
def field (document : Document) (name : StdString) : Option Document :=
  match document with
  | .object members => members.lookup name
  | _ => none

end Document

theorem Document.utf8_ofMap (map : StdMap) :
    (Document.ofMap map).Utf8 ↔ map.Utf8 := by
  rw [ofMap, utf8_object, List.forall_mem_map]
  simp only [utf8_string]
  rfl

namespace Wasm

/-! ## Shapes -/

/-- `{ routeId }` or `{ error }`. -/
def RegisterShape (document : Document) : Prop :=
  (∃ routeId, document.field (ascii "routeId") = some (.number routeId)) ∨
    ∃ what, document.field (ascii "error") = some (.string what)

/-- `{ matched, routeId, params, ms }`, with `pattern` when matched. -/
structure DispatchShape (document : Document) : Prop where
  isMatch : ∃ value,
    document.field (ascii "matched") = some (.boolean value) ∧
      (value = true → ∃ pattern,
        document.field (ascii "pattern") = some (.string pattern))
  routeId : ∃ routeId,
    document.field (ascii "routeId") = some (.number routeId)
  params : ∃ map, document.field (ascii "params") = some (.ofMap map)
  ms : ∃ bits, document.field (ascii "ms") = some (.float bits)

/--
`{ ok, method, path, version, headers, bodyLength, error }` of a
request.
-/
structure RequestShape (document : Document) : Prop where
  ok : document.field (ascii "ok") = some (.boolean true)
  method : ∃ text, document.field (ascii "method") = some (.string text)
  path : ∃ text, document.field (ascii "path") = some (.string text)
  version : ∃ text, document.field (ascii "version") = some (.string text)
  headers : ∃ map, document.field (ascii "headers") = some (.ofMap map)
  bodyLength : ∃ length,
    document.field (ascii "bodyLength") = some (.number length)
  error : document.field (ascii "error") = some .null

/-- `{ ok, error }` of a text that is no request. -/
structure FailureShape (document : Document) : Prop where
  ok : document.field (ascii "ok") = some (.boolean false)
  error : ∃ what, document.field (ascii "error") = some (.string what)

/-- A node of the trie, with its children. -/
inductive NodeShape : Document → Prop where
  | node {document : Document} {text : StdString}
      {parameter leaf handled : Bool} {kids : List Document}
      (value : document.field (ascii "value") = some (.string text))
      (isParameter :
        document.field (ascii "isParameter") = some (.boolean parameter))
      (parameterName : parameter = true → ∃ name,
        document.field (ascii "parameterName") = some (.string name))
      (isLeaf : document.field (ascii "isLeaf") = some (.boolean leaf))
      (hasHandler :
        document.field (ascii "hasHandler") = some (.boolean handled))
      (children : document.field (ascii "children") = some (.array kids))
      (below : ∀ kid ∈ kids, NodeShape kid) :
      NodeShape document

/-- `{ root, routeCount, routes, note }`. -/
structure TrieShape (document : Document) : Prop where
  root : ∃ root, document.field (ascii "root") = some root ∧ NodeShape root
  routeCount : ∃ count,
    document.field (ascii "routeCount") = some (.number count)
  routes : ∃ routes, document.field (ascii "routes") = some (.array routes) ∧
    ∀ route ∈ routes,
      (∃ routeId, route.field (ascii "routeId") = some (.number routeId)) ∧
        ∃ text, route.field (ascii "route") = some (.string text)
  note : ∃ text, document.field (ascii "note") = some (.string text)

theorem Registered.shape (report : Registered) :
    RegisterShape report.document := by
  cases report with
  | error what => exact Or.inr ⟨what, rfl⟩
  | duplicate routeId => exact Or.inr ⟨_, rfl⟩
  | accepted routeId => exact Or.inl ⟨routeId, rfl⟩

theorem Dispatched.shape
    {report : Dispatched}
    (told : report.isMatch = true → report.pattern.isSome) :
    DispatchShape report.document := by
  rcases report with ⟨isMatch, routeId, params, ms, pattern⟩
  refine ⟨⟨isMatch, rfl, fun matched => ?_⟩, ⟨routeId, rfl⟩, ⟨params, rfl⟩,
    ⟨ms, rfl⟩⟩
  rcases Option.isSome_iff_exists.mp (told matched) with ⟨text, rfl⟩
  exact ⟨text, rfl⟩

theorem failureShape (what : StdString) :
    FailureShape (failureDocument what) where
  ok := rfl
  error := ⟨what, rfl⟩

theorem requestShape (req : HttpRequest Document) :
    RequestShape (requestDocument req) where
  ok := rfl
  method := ⟨_, rfl⟩
  path := ⟨_, rfl⟩
  version := ⟨_, rfl⟩
  headers := ⟨_, rfl⟩
  bodyLength := ⟨_, rfl⟩
  error := rfl

/-! ## Documents of valid texts -/

theorem Registered.utf8 (report : Registered)
    (constant : ∀ what, report = .error what → ValidUtf8 what) :
    report.document.Utf8 := by
  have keys : ValidUtf8 (ascii "error") ∧ ValidUtf8 (ascii "routeId") ∧
      ValidUtf8 (ascii "route already registered") := by
    decide +kernel
  cases report with
  | error what =>
      simp [document, Document.utf8_object, Document.utf8_string, keys,
        constant what rfl]
  | duplicate routeId =>
      simp [document, Document.utf8_object, Document.utf8_string,
        Document.utf8_number, keys]
  | accepted routeId =>
      simp [document, Document.utf8_object, Document.utf8_number, keys]

theorem Dispatched.utf8
    {report : Dispatched} (params : report.params.Utf8)
    (pattern : ∀ text ∈ report.pattern, ValidUtf8 text) :
    report.document.Utf8 := by
  have keys : ValidUtf8 (ascii "matched") ∧ ValidUtf8 (ascii "routeId") ∧
      ValidUtf8 (ascii "params") ∧ ValidUtf8 (ascii "ms") ∧
      ValidUtf8 (ascii "pattern") := by
    decide +kernel
  cases told : report.pattern with
  | none =>
      simp [document, told, Document.utf8_object, Document.utf8_boolean,
        Document.utf8_number, Document.utf8_float, Document.utf8_ofMap,
        params, keys]
  | some text =>
      simp [document, told, Document.utf8_object, Document.utf8_boolean,
        Document.utf8_number, Document.utf8_float, Document.utf8_ofMap,
        Document.utf8_string, params, keys, pattern text told]

theorem failureDocument_utf8_iff (what : StdString) :
    (failureDocument what).Utf8 ↔ ValidUtf8 what := by
  have keys : ValidUtf8 (ascii "ok") ∧ ValidUtf8 (ascii "error") := by
    decide +kernel
  simp [failureDocument, Document.utf8_object, Document.utf8_string,
    Document.utf8_boolean, keys]

/-- The texts of a request that `pw_parse_request` reports. -/
structure RequestUtf8 (req : HttpRequest Document) : Prop where
  method : ValidUtf8 req.method
  path : ValidUtf8 req.path
  version : ValidUtf8 (versionOf req.protocol)
  headers : req.headers.Utf8
  query : req.query.Utf8

instance (req : HttpRequest Document) : Decidable (RequestUtf8 req) :=
  decidable_of_iff
    (ValidUtf8 req.method ∧ ValidUtf8 req.path ∧
      ValidUtf8 (versionOf req.protocol) ∧ req.headers.Utf8 ∧
      req.query.Utf8)
    ⟨fun ⟨method, path, version, headers, query⟩ =>
        ⟨method, path, version, headers, query⟩,
      fun ⟨method, path, version, headers, query⟩ =>
        ⟨method, path, version, headers, query⟩⟩

/-- The version is the protocol behind its `/`. -/
theorem utf8_versionOf {protocol : StdString} (valid : ValidUtf8 protocol) :
    ValidUtf8 (versionOf protocol) := by
  unfold versionOf
  split_ifs with http
  · obtain ⟨version, rfl⟩ := (StdString.startsWith_iff _ _).mp http
    have letters : ascii "HTTP/" = ascii "HTTP" ++ [slash] := by decide
    rw [letters, List.append_assoc] at valid
    exact (validUtf8_cut (by decide : slash < 128) valid).2
  · exact valid

theorem requestUtf8_of_utf8
    {req : HttpRequest Document} (valid : req.Utf8) : RequestUtf8 req :=
  ⟨valid.method, valid.path, utf8_versionOf valid.protocol, valid.headers,
    valid.query⟩

theorem requestDocument_utf8_iff (req : HttpRequest Document) :
    (requestDocument req).Utf8 ↔ RequestUtf8 req := by
  have keys : ValidUtf8 (ascii "ok") ∧ ValidUtf8 (ascii "method") ∧
      ValidUtf8 (ascii "path") ∧ ValidUtf8 (ascii "version") ∧
      ValidUtf8 (ascii "headers") ∧ ValidUtf8 (ascii "bodyLength") ∧
      ValidUtf8 (ascii "error") ∧ ValidUtf8 (ascii "query") := by
    decide +kernel
  have noQuery (empty : req.query.isEmpty = true) : req.query.Utf8 := by
    have none : req.query = ∅ := by
      simpa [Std.ExtTreeMap.isEmpty_iff] using empty
    rw [none]
    simp [StdMap.Utf8]
  cases empty : req.query.isEmpty with
  | true =>
      simp only [requestDocument, empty, ↓reduceIte, List.append_nil,
        Document.utf8_object, List.forall_mem_cons, List.not_mem_nil,
        keys, true_and, Document.utf8_boolean, Document.utf8_string,
        Document.utf8_ofMap, Document.utf8_number, Document.utf8_null,
        IsEmpty.forall_iff, implies_true, and_true]
      constructor
      · rintro ⟨method, path, version, headers⟩
        exact ⟨method, path, version, headers, noQuery empty⟩
      · rintro ⟨method, path, version, headers, -⟩
        exact ⟨method, path, version, headers⟩
  | false =>
      simp only [requestDocument, empty, Bool.false_eq_true, ↓reduceIte,
        List.cons_append, List.nil_append,
        Document.utf8_object, List.forall_mem_cons, List.not_mem_nil,
        keys, true_and, Document.utf8_boolean, Document.utf8_string,
        Document.utf8_ofMap, Document.utf8_number, Document.utf8_null,
        IsEmpty.forall_iff, implies_true, and_true]
      constructor
      · rintro ⟨method, path, version, headers, query⟩
        exact ⟨method, path, version, headers, query⟩
      · rintro ⟨method, path, version, headers, query⟩
        exact ⟨method, path, version, headers, query⟩

end Wasm

/-! ## The texts of the trie -/

namespace Node

variable {β : Type}

/-- The values and the names of the node and of those below it are valid. -/
inductive Utf8 : Node β → Prop where
  | node {node : Node β} (value : ValidUtf8 node.value)
      (name : ValidUtf8 node.parameterName)
      (children : ∀ entry ∈ node.children, Utf8 entry.2)
      (paramChild : ∀ child ∈ node.paramChild, Utf8 child) :
      Utf8 node

theorem utf8_default : (default : Node β).Utf8 :=
  .node validUtf8_nil validUtf8_nil (by simp [default]) (by simp [default])

/-- A valid segment begins with a colon or is a literal. -/
theorem utf8_ofValue
    {segment : StdString} (valid : ValidUtf8 segment) :
    (ofValue segment : Node β).Utf8 := by
  refine .node valid ?_ (by simp [ofValue]) (by simp [ofValue])
  cases segment with
  | nil => exact validUtf8_nil
  | cons letter rest =>
      by_cases parameter : letter = colon
      · subst parameter
        have tail :=
          (@validUtf8_cut [] rest colon (by decide) valid).2
        simpa [ofValue, StdString.substr] using tail
      · simpa [ofValue, parameter] using validUtf8_nil

theorem utf8_insertChild
    {node : Node β} (nodeValid : node.Utf8) {segment : StdString}
    (valid : ValidUtf8 segment) {edit : Node β → Node β}
    (keeps : ∀ child : Node β, child.Utf8 → (edit child).Utf8) :
    (node.insertChild segment edit).Utf8 := by
  rcases nodeValid with ⟨value, name, children, paramChild⟩
  unfold insertChild
  split_ifs with empty parameter
  · exact keeps node (.node value name children paramChild)
  · split
    · refine .node value name children ?_
      intro child own
      obtain rfl := Option.some.inj own
      exact keeps _ (utf8_ofValue valid)
    · next existing found =>
      refine .node value name children ?_
      intro child own
      obtain rfl := Option.some.inj own
      exact keeps existing (paramChild existing found)
  · split
    · next existing found =>
      rcases List.lookup_eq_some_iff.mp found with ⟨front, back, cut, -⟩
      have held : (segment, existing) ∈ node.children := by
        rw [cut]
        simp
      refine .node value name ?_ paramChild
      intro entry member
      rcases List.mem_map.mp member with ⟨old, inside, rfl⟩
      split_ifs
      · exact keeps existing (children _ held)
      · exact children old inside
    · refine .node value name ?_ paramChild
      intro entry member
      rcases List.mem_append.mp member with old | own
      · exact children entry old
      · rw [List.mem_singleton.mp own]
        exact keeps _ (utf8_ofValue valid)

theorem utf8_insertSegments
    {segments : List StdString}
    (valid : ∀ segment ∈ segments, ValidUtf8 segment)
    (func : Option β) {node : Node β} (nodeValid : node.Utf8) :
    (insertSegments segments func node).Utf8 := by
  induction segments generalizing node with
  | nil =>
      rcases nodeValid with ⟨value, name, children, paramChild⟩
      exact .node value name children paramChild
  | cons segment rest induction =>
      rcases List.forall_mem_cons.mp valid with ⟨first, later⟩
      exact
        utf8_insertChild nodeValid first fun child childValid =>
          induction later childValid

/-- The nodes below a valid node are valid. -/
theorem Utf8.walk
    {node target : Node β} (nodeValid : node.Utf8)
    {shape : WildcardTable.Shape StdString}
    (walked : node.walk shape = some target) : target.Utf8 := by
  induction shape generalizing node with
  | nil =>
      obtain rfl := Option.some.inj walked
      exact nodeValid
  | cons slot shape induction =>
      rcases nodeValid with ⟨value, name, children, paramChild⟩
      rcases Option.bind_eq_some_iff.mp walked with ⟨child, reached, below⟩
      refine induction ?_ below
      cases slot with
      | wild => exact paramChild child reached
      | literal segment =>
          obtain ⟨front, back, cut, -⟩ :=
            List.lookup_eq_some_iff.mp
              (reached : node.children.lookup segment = some child)
          exact children (segment, child) (by rw [cut]; simp)

/-- The names of a valid node's table are valid. -/
theorem Utf8.name
    {node : Node β} (nodeValid : node.Utf8)
    {position : WildcardTable.Shape StdString} {name : StdString}
    (named : node.table.name position = some name) : ValidUtf8 name := by
  rcases Option.bind_eq_some_iff.mp named with ⟨reached, walked, own⟩
  rcases Option.map_eq_some_iff.mp own with ⟨child, paramChild, rfl⟩
  rcases nodeValid.walk walked with ⟨-, -, -, below⟩
  rcases below child paramChild with ⟨-, valid, -, -⟩
  exact valid

end Node

namespace Wasm

section Dump

variable {β : Type}

theorem dumpChildren_eq (children : List (StdString × Node β)) :
    dumpChildren children =
      children.map fun entry => (entry.2.value, dumpNode entry.2) := by
  induction children with
  | nil => rfl
  | cons entry children induction =>
      rw [dumpChildren, induction, List.map_cons]

theorem dumpParam_eq (paramChild : Option (Node β)) :
    dumpParam paramChild =
      paramChild.toList.map fun child => (child.value, dumpNode child) := by
  cases paramChild with
  | none => rfl
  | some child => rw [dumpParam]; rfl

theorem mem_sortByValue
    {kids : List (StdString × Document)} {kid : Document} :
    kid ∈ sortByValue kids ↔ ∃ value, (value, kid) ∈ kids := by
  simp [sortByValue]

/-- A node of valid texts is dumped in its shape, and its texts are valid. -/
theorem dumpNode_of_utf8
    {node : Node β} (valid : node.Utf8) :
    NodeShape (dumpNode node) ∧ (dumpNode node).Utf8 := by
  have keys : ValidUtf8 (ascii "value") ∧ ValidUtf8 (ascii "isParameter") ∧
      ValidUtf8 (ascii "parameterName") ∧ ValidUtf8 (ascii "isLeaf") ∧
      ValidUtf8 (ascii "hasHandler") ∧ ValidUtf8 (ascii "children") := by
    decide +kernel
  induction valid with
  | @node node valueValid nameValid children paramChild below belowParam =>
      obtain ⟨value, isLeaf, entries, param, handler, isParameter, name⟩ :=
        node
      have kids :
          ∀ kid ∈ sortByValue (dumpChildren entries ++ dumpParam param),
            NodeShape kid ∧ kid.Utf8 := by
        intro kid member
        rcases mem_sortByValue.mp member with ⟨own, inside⟩
        rw [dumpChildren_eq, dumpParam_eq] at inside
        rcases List.mem_append.mp inside with literal | wild
        · rcases List.mem_map.mp literal with ⟨entry, held, same⟩
          rcases Prod.mk.inj same with ⟨-, rfl⟩
          exact below entry held
        · rcases List.mem_map.mp wild with ⟨child, held, same⟩
          rcases Prod.mk.inj same with ⟨-, rfl⟩
          exact belowParam child (Option.mem_toList.mp held)
      constructor
      · cases isParameter with
        | true =>
            exact
              .node rfl rfl (fun _ => ⟨name, rfl⟩) rfl rfl rfl
                fun kid member => (kids kid member).1
        | false =>
            exact
              .node rfl rfl (fun parameter => by cases parameter) rfl rfl rfl
                fun kid member => (kids kid member).1
      · have all :
            (Document.array
              (sortByValue
                (dumpChildren entries ++ dumpParam param))).Utf8 :=
          (Document.utf8_array _).mpr fun kid member =>
            (kids kid member).2
        have ownValue : ValidUtf8 value := valueValid
        have ownName : ValidUtf8 name := nameValid
        cases isParameter with
        | true =>
            simp [dumpNode, Document.utf8_object, Document.utf8_string,
              Document.utf8_boolean, keys, all, ownValue, ownName]
        | false =>
            simp [dumpNode, Document.utf8_object, Document.utf8_string,
              Document.utf8_boolean, keys, all, ownValue]

end Dump

/-! ## Calls -/

section Calls

variable [JsonText] (llhttp : Llhttp)

/-- How the parser ends on the text, and the last request it delivers. -/
def reading (rawText : CPointer) :
    Executed llhttp × Option (HttpRequest Document) :=
  let parser := HttpParser.new llhttp kMaxHeaderBytes
  (parser.ending rawText.text (parser.reads Document rawText.text).1,
    (parser.delivers Document rawText.text).getLast?.map Prod.fst)

/--
The parser fails with a valid message, or the last request it delivers
has valid texts.
-/
def ReadUtf8 {llhttp : Llhttp} :
    Executed llhttp × Option (HttpRequest Document) → Prop
  | (.failed _ reason, _) => ValidUtf8 reason
  | (.escaped _, _) => True
  | (.accepted _, none) => True
  | (.accepted _, some req) => RequestUtf8 req

instance {llhttp : Llhttp} :
    (read : Executed llhttp × Option (HttpRequest Document)) →
      Decidable (ReadUtf8 read)
  | (.failed _ _, _) => inferInstanceAs (Decidable (ValidUtf8 _))
  | (.escaped _, _) => inferInstanceAs (Decidable True)
  | (.accepted _, none) => inferInstanceAs (Decidable True)
  | (.accepted _, some _) => inferInstanceAs (Decidable (RequestUtf8 _))

/--
A parser that fails with a valid message, if it fails, reads valid texts where
it reports valid spans: header spans and, at the end of each message, a method
and a decoded target.
-/
theorem readUtf8_of_spans
    {rawText : CPointer}
    (failing : ∀ status reason,
      (reading llhttp rawText).1 = .failed status reason → ValidUtf8 reason)
    (spans :
      SpansUtf8 [] (llhttp.execute llhttp.init rawText.text).callbacks) :
    ReadUtf8 (reading llhttp rawText) := by
  have delivered :
      ∀ delivery ∈
          (HttpParser.new llhttp kMaxHeaderBytes).delivers Document
            rawText.text,
        delivery.1.Utf8 :=
    (Impl.utf8_new kMaxHeaderBytes).foldlM_record spans
  rcases read : reading llhttp rawText with ⟨ending, req⟩
  rw [read] at failing
  have last := (Prod.mk.inj read).2
  cases ending with
  | failed status reason => exact failing status reason rfl
  | escaped exception => trivial
  | accepted parser =>
      cases req with
      | none => trivial
      | some req =>
          obtain ⟨delivery, own, rfl⟩ := Option.map_eq_some_iff.mp last
          exact
            requestUtf8_of_utf8
              (delivered delivery (List.mem_of_getLast? own))

namespace Instance

/-- The call returns a document of its shape. -/
def Returns (inst : Instance) : Call → Prop
  | .reset => True
  | .registerRoute method pattern =>
      let document := (inst.state.registerRoute method pattern).2.document
      (∃ text, JsonText.dump document = .ok text) ∧ RegisterShape document
  | .dispatch method path ms =>
      let document := (inst.state.dispatch method path ms).2.document
      (∃ text, JsonText.dump document = .ok text) ∧ DispatchShape document
  | .parseRequest rawText =>
      ∃ document, parseRequest llhttp rawText = .ok document ∧
        (∃ text, JsonText.dump document = .ok text) ∧
          (RequestShape document ∨ FailureShape document)
  | .dumpTrie =>
      (∃ text, JsonText.dump inst.state.dumpTrie = .ok text) ∧
        TrieShape inst.state.dumpTrie

/--
Methods and patterns registered are valid UTF-8 and their number fits
into an `int`; the method and the path of a dispatch that an accepted route
matches are valid; and so is what the parser reads of a request, which
`readUtf8_of_spans` gives from the spans that are reported.
-/
def Utf8Call (inst : Instance) : Call → Prop
  | .reset => True
  | .registerRoute method pattern =>
      ValidUtf8 method.text ∧ ValidUtf8 pattern.text ∧
        inst.accepted.length + 1 < 2 ^ 31
  | .dispatch method path _ =>
      (∃ route ∈ inst.accepted,
        KeyMatches route.registration.key
          (keyOf method.text path.text)) →
        ValidUtf8 method.text ∧ ValidUtf8 path.text
  | .parseRequest rawText => ReadUtf8 (reading llhttp rawText)
  | .dumpTrie => True

end Instance

/-! ## Parsing -/

/-- What `pw_parse_request` makes of what the parser reads. -/
theorem parseRequest_eq (rawText : CPointer) :
    parseRequest llhttp rawText =
      match reading llhttp rawText with
      | (.failed _ reason, _) => .ok (failureDocument reason)
      | (.escaped exception, _) => .error exception
      | (.accepted _, none) =>
          .ok
            (failureDocument
              (ascii "incomplete request: headers did not terminate"))
      | (.accepted _, some req) => .ok (requestDocument req) := by
  have each (deliveries : List (HttpRequest Document × Bool))
      (out : Option Document) :
      RequestHandler.each
          (fun req _ => Action.modify fun _ => some (requestDocument req))
          deliveries out =
        (.returned,
          ((deliveries.getLast?.map Prod.fst).map requestDocument).or
            out) := by
    induction deliveries generalizing out with
    | nil => rfl
    | cons delivery deliveries induction =>
        rcases delivery with ⟨req, keepAlive⟩
        simp only [RequestHandler.each, Action.seq, Action.modify, induction]
        cases deliveries with
        | nil => rfl
        | cons next deliveries =>
            rw [List.getLast?_cons_cons]
            cases last : (next :: deliveries).getLast? with
            | none => simp at last
            | some delivery => rfl
  unfold parseRequest reading
  dsimp only
  rw [HttpParser.execute_eq, each, Option.or_none]
  cases (HttpParser.new llhttp kMaxHeaderBytes).ending rawText.text
    ((HttpParser.new llhttp kMaxHeaderBytes).reads Document
      rawText.text).1 with
  | failed status reason => rfl
  | escaped exception => rfl
  | accepted parser =>
      cases ((HttpParser.new llhttp kMaxHeaderBytes).delivers Document
        rawText.text).getLast? with
      | none => rfl
      | some delivery => rfl

/-- No exception passes through the parser. -/
theorem reading_returns (rawText : CPointer) (exception : CxxException) :
    (reading llhttp rawText).1 ≠ .escaped exception := by
  unfold reading
  dsimp only
  intro escaped
  unfold HttpParser.ending at escaped
  split at escaped
  · dsimp only at escaped
    split at escaped
    · cases escaped
    · cases escaped
  · cases escaped
  · next thrown read =>
    exact Impl.foldlM_record_returns _ _ _ thrown read

theorem parseRequest_returns
    (dumps : JsonText.DumpsUtf8) {rawText : CPointer}
    (valid : ReadUtf8 (reading llhttp rawText)) :
    ∃ document, parseRequest llhttp rawText = .ok document ∧
      (∃ text, JsonText.dump document = .ok text) ∧
        (RequestShape document ∨ FailureShape document) := by
  have returns := reading_returns llhttp rawText
  rw [parseRequest_eq]
  generalize reading llhttp rawText = read at valid returns ⊢
  rcases read with ⟨executed, delivered⟩
  cases executed with
  | failed status reason =>
      exact
        ⟨failureDocument reason, rfl,
          (dumps _).mpr ((failureDocument_utf8_iff reason).mpr valid),
          Or.inr (failureShape reason)⟩
  | escaped exception => exact absurd rfl (returns exception)
  | accepted parser =>
      cases delivered with
      | none =>
          refine
            ⟨failureDocument _, rfl,
              (dumps _).mpr ((failureDocument_utf8_iff _).mpr ?_),
              Or.inr (failureShape _)⟩
          decide +kernel
      | some req =>
          exact
            ⟨requestDocument req, rfl,
              (dumps _).mpr ((requestDocument_utf8_iff req).mpr valid),
              Or.inl (requestShape req)⟩

/-! ## Runs -/

namespace Instance

/--
The accepted routes and the trie hold valid texts, and the number of
routes fits into an `int`.
-/
structure Utf8 (inst : Instance) : Prop where
  routes : ∀ route ∈ inst.accepted,
    ValidUtf8 route.method ∧ ValidUtf8 route.pattern
  root : inst.state.registry.trie.root.Utf8
  count : inst.accepted.length < 2 ^ 31

omit [JsonText] in
theorem utf8_new : new.Utf8 where
  routes := by simp [new]
  root := Node.utf8_default
  count := by simp [new]

end Instance

omit [JsonText] in
/-- The segments of a valid key are valid. -/
theorem utf8_of_mem_key
    {method path : CPointer} (methodValid : ValidUtf8 method.text)
    (pathValid : ValidUtf8 path.text) :
    ∀ segment ∈
        Utils.split (method.text ++ ascii ":" ++ path.text) (ascii "/"),
      ValidUtf8 segment := by
  rw [split_key method.noNul path.noNul]
  exact
    validUtf8_of_mem_pieces (by decide)
      ((methodValid.append (by decide +kernel)).append pathValid)

namespace Instance

variable {inst : Instance}

theorem utf8_step
    (valid : inst.Utf8) {call : Call}
    (condition : inst.Utf8Call llhttp call) :
    (inst.step call).Utf8 := by
  cases call with
  | reset => exact utf8_new
  | registerRoute method pattern =>
      rcases condition with ⟨methodValid, patternValid, room⟩
      simp only [step]
      rcases inst.state.registerRoute_cases method pattern with
        ⟨what, refused, -⟩ | ⟨-, -, index, refused, -⟩ |
          ⟨-, -, -, taken⟩
      · rw [refused]
        exact valid
      · rw [refused]
        exact valid
      · rw [taken]
        constructor
        · intro route member
          rcases List.mem_append.mp member with old | own
          · exact valid.routes route old
          · rw [List.mem_singleton.mp own]
            exact ⟨methodValid, patternValid⟩
        · exact
            Node.utf8_insertSegments
              (utf8_of_mem_key methodValid patternValid) _ valid.root
        · show (inst.accepted ++ [_]).length < 2 ^ 31
          rw [List.length_append]
          exact room
  | dispatch method path ms =>
      refine ⟨valid.routes, ?_, valid.count⟩
      simp only [step, State.dispatch]
      split
      · exact valid.root
      · exact valid.root
  | parseRequest rawText => exact valid
  | dumpTrie => exact valid

omit [JsonText] in
/-- The parameters bound in a valid path are valid. -/
theorem Utf8.params
    (valid : inst.Utf8) {method path : CPointer}
    (methodValid : ValidUtf8 method.text) (pathValid : ValidUtf8 path.text)
    {id : Int} {req : HttpRequest Unit}
    (found :
      inst.state.registry.getHandler (State.probe method path) =
        (some id, req)) :
    req.params.Utf8 := by
  rw [getHandler_eq _ _ rfl] at found
  split at found
  · next shape handler _ =>
    rcases Prod.mk.inj found with ⟨-, rfl⟩
    rintro ⟨name, value⟩ member
    have stored :=
      Std.ExtTreeMap.mem_toList_iff_getElem?_eq_some.mp member
    have bound :=
      (StdMap.mem_of_getElem?_insertAll stored).resolve_right (by simp)
    constructor
    · obtain ⟨position, named⟩ :=
        WildcardTable.Table.name_of_mem_bindings bound
      exact valid.root.name named
    · exact
        utf8_of_mem_key methodValid pathValid value
          (WildcardTable.Table.mem_key_of_mem_bindings bound)
  · cases (Prod.mk.inj found).1

theorem returns_of_valid
    (dumps : JsonText.DumpsUtf8) (consistent : inst.Consistent)
    (valid : inst.Utf8) {call : Call}
    (condition : inst.Utf8Call llhttp call) :
    inst.Returns llhttp call := by
  cases call with
  | reset => trivial
  | registerRoute method pattern =>
      refine ⟨(dumps _).mpr (Registered.utf8 _ ?_), Registered.shape _⟩
      intro what refused
      unfold State.registerRoute at refused
      split at refused
      · obtain rfl := Registered.error.inj refused
        decide +kernel
      · split at refused
        · obtain rfl := Registered.error.inj refused
          decide +kernel
        · dsimp only at refused
          split at refused
          · cases refused
          · cases refused
  | dispatch method path ms =>
      simp only [Returns, State.dispatch]
      split
      · refine ⟨(dumps _).mpr (Dispatched.utf8 ?_ ?_), Dispatched.shape ?_⟩
        · simp [StdMap.Utf8]
        · simp
        · intro matched
          cases matched
      · next id req found =>
        obtain ⟨index, route, located, isIndex, matching, -⟩ :=
          consistent.found found
        obtain ⟨methodValid, pathValid⟩ :=
          condition ⟨route, List.mem_of_getElem? located, matching⟩
        have pattern := consistent.pattern_eq valid.count located
        rw [← isIndex] at pattern
        refine ⟨(dumps _).mpr (Dispatched.utf8 ?_ ?_), Dispatched.shape ?_⟩
        · exact valid.params methodValid pathValid found
        · dsimp only
          rw [pattern]
          intro text own
          obtain rfl := Option.some.inj own
          obtain ⟨ownMethod, ownPattern⟩ :=
            valid.routes route (List.mem_of_getElem? located)
          exact (ownMethod.append (by decide +kernel)).append ownPattern
        · intro _
          dsimp only
          rw [pattern]
          rfl
  | parseRequest rawText => exact parseRequest_returns llhttp dumps condition
  | dumpTrie =>
      have keys : ValidUtf8 (ascii "root") ∧ ValidUtf8 (ascii "routeCount") ∧
          ValidUtf8 (ascii "routes") ∧ ValidUtf8 (ascii "routeId") ∧
          ValidUtf8 (ascii "route") ∧ ValidUtf8 (ascii "note") ∧
          ValidUtf8
            (ascii
              "trie keys are METHOD:/path, so depth 1 holds the methods") := by
        decide +kernel
      rcases dumpNode_of_utf8 valid.root with ⟨rootShape, rootValid⟩
      have texts :
          ∀ text ∈ inst.state.patterns, ValidUtf8 text := by
        rw [consistent.patterns]
        intro text member
        rcases List.mem_map.mp member with ⟨route, accepted, rfl⟩
        rcases valid.routes route accepted with ⟨method, pattern⟩
        exact (method.append (by decide +kernel)).append pattern
      constructor
      · refine (dumps _).mpr ?_
        show Document.Utf8 _
        simp only [State.dumpTrie, Document.utf8_object,
          Document.utf8_array, List.forall_mem_cons, List.not_mem_nil,
          List.forall_mem_map, keys, true_and, Document.utf8_number,
          Document.utf8_string, rootValid, IsEmpty.forall_iff,
          implies_true, and_true]
        rintro ⟨text, index⟩ member
        exact texts text (List.fst_mem_of_mem_zipIdx member)
      · refine ⟨⟨_, rfl, rootShape⟩, ⟨_, rfl⟩, ⟨_, rfl, ?_⟩, ⟨_, rfl⟩⟩
        intro route member
        rcases List.mem_map.mp member with ⟨entry, -, rfl⟩
        exact ⟨⟨_, rfl⟩, ⟨_, rfl⟩⟩

end Instance

/--
In every run of calls with valid texts each call returns a document of
its shape.
-/
theorem returns_of_utf8
    (dumps : JsonText.DumpsUtf8) {calls : List Call}
    (valid :
      Runs.Along Instance.step (Instance.Utf8Call llhttp) Instance.new
        calls) :
    Runs.Along Instance.step (Instance.Returns llhttp) Instance.new calls :=
  @Runs.along_of_invariant _ _ Instance.step _ _
    (fun inst => inst.Consistent ∧ inst.Utf8)
    (fun _ call invariant condition =>
      ⟨Instance.consistent_step invariant.1 call,
        Instance.utf8_step llhttp invariant.2 condition⟩)
    (fun _ _ invariant condition =>
      Instance.returns_of_valid llhttp dumps invariant.1 invariant.2 condition)
    _ ⟨Instance.consistent_new, Instance.utf8_new⟩ _ valid

end Calls

/-! ## A JSON library for closed examples -/

mutual

/--
Compact output with the keys in order, of values whose strings need no
escapes and whose floating-point numbers are zero.
-/
def printed : Document → StdString
  | .null => ascii "null"
  | .boolean value => if value then ascii "true" else ascii "false"
  | .number value => StdString.ofInt value
  | .float _ => ascii "0.0"
  | .string text => FlatJson.quoted text
  | .array items =>
      ascii "[" ++ (ascii ",").intercalate (printedItems items) ++ ascii "]"
  | .object members =>
      ascii "\x7b" ++
        (ascii ",").intercalate
          (((printedMembers members).mergeSort
            fun first second => first.1 ≤ second.1).map Prod.snd) ++
        ascii "\x7d"

def printedItems : List Document → List StdString
  | [] => []
  | item :: items => printed item :: printedItems items

def printedMembers :
    List (StdString × Document) → List (StdString × StdString)
  | [] => []
  | (key, value) :: members =>
      (key, FlatJson.quoted key ++ ascii ":" ++ printed value) ::
        printedMembers members

end

/-- It throws on a string that is not valid UTF-8, and reads only `null`. -/
@[reducible] def plainJson : JsonText where
  dump document :=
    if ∀ text ∈ document.strings, ValidUtf8 text then
      .ok (printed document)
    else .error (ascii "invalid UTF-8 byte")
  parse text :=
    if text = ascii "null" then .ok .null else .error (ascii "parse error")

theorem plainJson_dumpsUtf8 : @JsonText.DumpsUtf8 plainJson := by
  intro document
  show (∃ text, plainJson.dump document = .ok text) ↔ _
  unfold plainJson
  dsimp only
  split
  · next valid => exact iff_of_true ⟨_, rfl⟩ valid
  · next invalid => exact iff_of_false (by simp) invalid

/-- A registration, a dispatch, a request and a dump. -/
def utf8Calls : List Call :=
  [.registerRoute (CPointer.ofAscii "GET") (CPointer.ofAscii "/users/:id"),
    .dispatch (CPointer.ofAscii "GET") (CPointer.ofAscii "/users/42") 0,
    .parseRequest (CPointer.ofAscii "GET /a?b=c HTTP/1.1\r\n\r\n"),
    .dumpTrie]

theorem returns_of_utf8_utf8Calls :
    Runs.Along Instance.step
      (@Instance.Returns plainJson bodilessRequests.llhttp) Instance.new
      utf8Calls :=
  @returns_of_utf8 plainJson bodilessRequests.llhttp plainJson_dumpsUtf8
    utf8Calls
    ⟨⟨by decide +kernel, by decide +kernel, by decide +kernel⟩,
      fun _ => ⟨by decide +kernel, by decide +kernel⟩,
      by
        show
          ReadUtf8
            (@reading plainJson bodilessRequests.llhttp
              (CPointer.ofAscii "GET /a?b=c HTTP/1.1\r\n\r\n"))
        decide +kernel,
      trivial, trivial⟩

/-- A plain ASCII request with a percent-encoded byte. -/
def percentCalls : List Call :=
  [.parseRequest (CPointer.ofAscii "GET /%FF HTTP/1.1\r\n\r\n")]

/-- The path of the request is not valid UTF-8, and `dump` throws. -/
theorem percent_escapes :
    ¬ ∀ calls : List Call,
        Runs.Along Instance.step
          (@Instance.Returns plainJson bodilessRequests.llhttp) Instance.new
          calls := by
  intro claim
  rcases claim percentCalls with ⟨⟨document, parsed, ⟨text, dumped⟩, -⟩, -⟩
  have invalid :
      ((@parseRequest plainJson bodilessRequests.llhttp
          (CPointer.ofAscii "GET /%FF HTTP/1.1\r\n\r\n")).bind
        fun document =>
          (plainJson.dump document).mapError
            CxxException.stdException).toOption = none := by
    decide +kernel
  rw [parsed] at invalid
  have thrown :
      (((plainJson.dump document).mapError
        CxxException.stdException)).toOption = none := invalid
  have same : plainJson.dump document = .ok text := dumped
  rw [same] at thrown
  cases thrown

end Wasm

end PlusWeb
