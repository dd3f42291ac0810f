import PlusWeb.WasmContract
import PlusWeb.RouteTables

/-!
# Dispatch in the WebAssembly contract

`pw_dispatch` searches the trie for `METHOD:` and the path, cut at slashes.
If no method contains a slash, no accepted method begins with a colon, and
each path begins with a slash or is empty, then the first segment is the
method and the rest are the segments of the path, and the answer is about the
accepted routes.  Otherwise a method can act as a parameter or run into the
path.
-/

namespace PlusWeb

namespace Wasm

open WildcardTable

/-- The segments of a path. -/
def segments (path : StdString) : List StdString :=
  Utils.split path (ascii "/")

namespace Dispatched

/--
A match is an accepted route with the method, whose pattern matches the
path, and is reported with its id and its text; without a match there is no
such route.
-/
structure Sound
    (accepted : List Route) (method path : StdString)
    (report : Dispatched) : Prop where
  hit : report.isMatch = true →
    ∃ index route,
      report.routeId = Int.ofNat index ∧
        accepted[index]? = some route ∧
        report.pattern = some route.text ∧
        route.method = method ∧
        KeyMatches (segments route.pattern) (segments path)
  miss : report.isMatch = false →
    ∀ route ∈ accepted,
      route.method = method →
        ¬ KeyMatches (segments route.pattern) (segments path)

end Dispatched

namespace Instance

/-- What the call reports is sound. -/
def SoundCall (inst : Instance) : Call → Prop
  | .dispatch method path ms =>
      (inst.state.dispatch method path ms).2.Sound inst.accepted method.text
        path.text
  | .reset => True
  | .registerRoute _ _ => True
  | .parseRequest _ => True
  | .dumpTrie => True

/--
Methods contain no slash, methods registered do not begin with a colon,
paths begin with a slash or are empty, and the number of routes fits into an
`int`.
-/
def PlainCall (inst : Instance) : Call → Prop
  | .registerRoute method _ =>
      slash ∉ method.text ∧ method.text.head? ≠ some colon ∧
        inst.accepted.length + 1 < 2 ^ 31
  | .dispatch method path _ =>
      slash ∉ method.text ∧
        (path.text = [] ∨ path.text.head? = some slash)
  | .reset => True
  | .parseRequest _ => True
  | .dumpTrie => True

end Instance

/-! ## Keys -/

/-- The key of a method without a slash. -/
theorem keyOf_eq
    {method path : StdString} (noSlash : slash ∉ method)
    (pathFree : (0 : UInt8) ∉ path)
    (origin : path = [] ∨ path.head? = some slash) :
    keyOf method path = (method ++ ascii ":") :: segments path := by
  have first : slash ∉ method ++ ascii ":" := by
    have other : slash ≠ colon := by decide
    simpa [noSlash, ascii] using other
  have nonempty : method ++ ascii ":" ≠ [] := by simp [ascii]
  have own : segments path = Utils.pieces slash path := by
    rw [segments, split_slash, StdString.cStr_eq_self pathFree]
  rw [keyOf, own]
  rcases origin with rfl | origin
  · rw [List.append_nil, Utils.pieces_of_notMem first, if_pos nonempty]
    rfl
  · cases path with
    | nil => cases origin
    | cons letter rest =>
        obtain rfl : letter = slash := Option.some.inj origin
        have front : Utils.pieces slash (slash :: rest) =
            Utils.pieces slash rest :=
          Utils.pieces_append_cons slash [] rest
        rw [Utils.pieces_append_cons, Utils.pieces_of_notMem first,
          if_pos nonempty, front]
        rfl

/-- A route whose method can be told from the rest of its key. -/
structure Route.Plain (route : Route) : Prop where
  noSlash : slash ∉ route.method
  noColon : route.method.head? ≠ some colon

theorem Route.Plain.key_eq
    {route : Route} (plain : route.Plain) (checked : route.Checked) :
    route.registration.key =
      (route.method ++ ascii ":") :: segments route.pattern :=
  keyOf_eq plain.noSlash checked.noNul.2 (Or.inr checked.pattern)

theorem Route.Plain.head?_key
    {route : Route} (plain : route.Plain) (checked : route.Checked) :
    (route.method ++ ascii ":").head? ≠ some colon := by
  rw [List.head?_append_of_ne_nil _ checked.method]
  exact plain.noColon

/-- The key of such a route matches exactly with its own method. -/
theorem Route.Plain.keyMatches_iff
    {route : Route} (plain : route.Plain) (checked : route.Checked)
    {method path : StdString} (noSlash : slash ∉ method)
    (pathFree : (0 : UInt8) ∉ path)
    (origin : path = [] ∨ path.head? = some slash) :
    KeyMatches route.registration.key (keyOf method path) ↔
      route.method = method ∧
        KeyMatches (segments route.pattern) (segments path) := by
  rw [plain.key_eq checked, keyOf_eq noSlash pathFree origin, KeyMatches,
    List.forall₂_cons, SegmentMatches,
    or_iff_left (plain.head?_key checked), List.append_cancel_right_eq]
  rfl

/-! ## Runs -/

namespace Instance

/-- The accepted routes have plain methods, and their number fits. -/
structure Plain (inst : Instance) : Prop where
  routes : ∀ route ∈ inst.accepted, route.Plain
  count : inst.accepted.length < 2 ^ 31

theorem plain_new : new.Plain where
  routes := by simp [new]
  count := by simp [new]

theorem plain_step
    {inst : Instance} (plain : inst.Plain) {call : Call}
    (condition : inst.PlainCall call) :
    (inst.step call).Plain := by
  cases call with
  | reset => exact plain_new
  | registerRoute method pattern =>
      rcases condition with ⟨noSlash, noColon, room⟩
      simp only [step]
      rcases inst.state.registerRoute_cases method pattern with
        ⟨what, refused, -⟩ | ⟨-, -, index, refused, -⟩ |
          ⟨-, -, -, taken⟩
      · rw [refused]
        exact plain
      · rw [refused]
        exact plain
      · rw [taken]
        constructor
        · intro route member
          rcases List.mem_append.mp member with old | own
          · exact plain.routes route old
          · rw [List.mem_singleton.mp own]
            exact ⟨noSlash, noColon⟩
        · show (inst.accepted ++ [_]).length < 2 ^ 31
          rw [List.length_append]
          exact room
  | dispatch method path ms => exact ⟨plain.routes, plain.count⟩
  | parseRequest rawText => exact plain
  | dumpTrie => exact plain

/-- A dispatch with a plain method on plain routes. -/
theorem sound_of_plain
    {inst : Instance} (consistent : inst.Consistent) (plain : inst.Plain)
    {call : Call} (condition : inst.PlainCall call) :
    inst.SoundCall call := by
  cases call with
  | dispatch method path ms =>
      rcases condition with ⟨noSlash, origin⟩
      have own (route : Route) (member : route ∈ inst.accepted) :
          KeyMatches route.registration.key
              (keyOf method.text path.text) ↔
            route.method = method.text ∧
              KeyMatches (segments route.pattern) (segments path.text) :=
        (plain.routes route member).keyMatches_iff
          (consistent.checked route member) noSlash path.noNul origin
      simp only [SoundCall, State.dispatch]
      split
      · next req missed =>
        constructor
        · intro hit
          cases hit
        · intro _ route member sameMethod matching
          exact
            consistent.missed missed route member
              ((own route member).mpr ⟨sameMethod, matching⟩)
      · next id req found =>
        obtain ⟨index, route, located, isIndex, matching, -⟩ :=
          consistent.found found
        have pattern := consistent.pattern_eq plain.count located
        rw [← isIndex] at pattern
        have inside : index < inst.accepted.length :=
          (List.getElem?_eq_some_iff.mp located).1
        obtain ⟨sameMethod, sameSegments⟩ :=
          (own route (List.mem_of_getElem? located)).mp matching
        constructor
        · intro _
          exact
            ⟨index, route,
              isIndex.trans (intOfSize_eq (lt_trans inside plain.count)),
              located, pattern, sameMethod, sameSegments⟩
        · intro miss
          cases miss
  | reset => trivial
  | registerRoute method pattern => trivial
  | parseRequest rawText => trivial
  | dumpTrie => trivial

end Instance

/-- In every run of plain calls each dispatch is sound. -/
theorem dispatch_sound_of_plain
    {calls : List Call}
    (plain :
      Runs.Along Instance.step Instance.PlainCall Instance.new calls) :
    Runs.Along Instance.step Instance.SoundCall Instance.new calls :=
  @Runs.along_of_invariant _ _ Instance.step Instance.PlainCall
    Instance.SoundCall (fun inst => inst.Consistent ∧ inst.Plain)
    (fun _ call invariant condition =>
      ⟨Instance.consistent_step invariant.1 call,
        Instance.plain_step invariant.2 condition⟩)
    (fun _ _ invariant condition =>
      Instance.sound_of_plain invariant.1 invariant.2 condition)
    _ ⟨Instance.consistent_new, Instance.plain_new⟩ _ plain

/-- The pointer to a text of a program. -/
def CPointer.ofAscii (text : String) : CPointer :=
  some (CString.ofText (ascii text))

/-- Two routes, and a path both match. -/
def plainCalls : List Call :=
  [.registerRoute (CPointer.ofAscii "GET") (CPointer.ofAscii "/users/:id"),
    .registerRoute (CPointer.ofAscii "GET") (CPointer.ofAscii "/users/new"),
    .dispatch (CPointer.ofAscii "GET") (CPointer.ofAscii "/users/new") 0]

theorem dispatch_sound_plainCalls :
    Runs.Along Instance.step Instance.SoundCall Instance.new plainCalls :=
  dispatch_sound_of_plain
    ⟨by unfold Instance.PlainCall; decide +kernel,
      by unfold Instance.PlainCall; decide +kernel,
      by unfold Instance.PlainCall; decide +kernel, trivial⟩

/-- A method that begins with a colon is a parameter. -/
def wildcardCalls : List Call :=
  [.registerRoute (CPointer.ofAscii ":any") (CPointer.ofAscii "/a"),
    .dispatch (CPointer.ofAscii "GET") (CPointer.ofAscii "/a") 0]

/-- The texts that a call is given. -/
def Call.texts : Call → List StdString
  | .registerRoute method pattern => [method.text, pattern.text]
  | .reset => []
  | .dispatch method path _ => [method.text, path.text]
  | .parseRequest rawText => [rawText.text]
  | .dumpTrie => []

/-- The route of another method is reported. -/
theorem dispatch_unsound :
    ¬ ∀ calls : List Call,
        (∀ call ∈ calls, ∀ text ∈ call.texts, ValidUtf8 text) →
        Runs.Along Instance.step Instance.SoundCall Instance.new calls := by
  intro claim
  rcases claim wildcardCalls (by decide +kernel) with ⟨-, sound, -⟩
  obtain ⟨index, route, -, found, -, isGet, -⟩ :=
    sound.hit (by decide +kernel)
  have member := List.mem_of_getElem? found
  have only :
      ∀ route ∈
        (Instance.new.step
          (.registerRoute (CPointer.ofAscii ":any")
            (CPointer.ofAscii "/a"))).accepted,
        route.method ≠ (CPointer.ofAscii "GET").text := by
    decide +kernel
  exact only route member isGet

end Wasm

end PlusWeb
