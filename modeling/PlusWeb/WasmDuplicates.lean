import PlusWeb.WasmDispatch

/-!
# Duplicate routes in the WebAssembly contract

`pw_register_route` compares the texts of the routes.  The trie cuts a
pattern at slashes and forgets the names of parameters, so that two texts can
lead to one node, and the second handler replaces the first.

This happens exactly if the pattern of a new text leads to the node of an
accepted route.  Where it never happens, every accepted route answers its own
pattern.
-/

namespace PlusWeb

namespace Wasm

open WildcardTable

namespace Instance

/-! ## What should hold of a call -/

/-- The node a key leads to has a handler. -/
def Holds (inst : Instance) (key : List StdString) : Prop :=
  ((inst.state.registry.trie.root.walk (shapeOf key)).bind
    Node.handler).isSome = true

instance (inst : Instance) (key : List StdString) :
    Decidable (inst.Holds key) :=
  inferInstanceAs (Decidable (_ = _))

/-- Some dispatch reports the route. -/
def Answers (inst : Instance) (route : Route) : Prop :=
  ∃ method path : CPointer, ∀ ms,
    (inst.state.dispatch method path ms).2.isMatch = true ∧
      (inst.state.dispatch method path ms).2.routeId = route.routeId

/--
A registration that would write to a node with a handler reports the
route as registered; an accepted one leaves to each route the paths it
answered by an equally specific pattern; and each accepted route answers.
-/
structure Unreplaced (inst : Instance) (method pattern : CPointer) :
    Prop where
  refuses : method.text ≠ [] → pattern.text.head? = some slash →
    inst.Holds (keyOf method.text pattern.text) →
      ∃ routeId,
        (inst.state.registerRoute method pattern).2 = .duplicate routeId
  keeps : ∀ routeId,
    (inst.state.registerRoute method pattern).2 = .accepted routeId →
      ∀ route ∈ inst.accepted,
        SameShape route.registration.key
            (keyOf method.text pattern.text) →
          ∀ (probeMethod probePath : CPointer) (ms : UInt64),
            (inst.state.dispatch probeMethod probePath ms).2.isMatch = true →
              (inst.state.dispatch probeMethod probePath ms).2.routeId =
                  route.routeId →
                ((inst.step (.registerRoute method pattern)).state.dispatch
                    probeMethod probePath ms).2.routeId =
                  route.routeId
  answers : ∀ route ∈ (inst.step (.registerRoute method pattern)).accepted,
    (inst.step (.registerRoute method pattern)).Answers route

/-- The registrations replace no route. -/
def UnreplacedCall (inst : Instance) : Call → Prop
  | .registerRoute method pattern => inst.Unreplaced method pattern
  | .reset => True
  | .dispatch _ _ _ => True
  | .parseRequest _ => True
  | .dumpTrie => True

/--
A pattern that leads to the node of an accepted route has been accepted
with the same text.
-/
def FreshCall (inst : Instance) : Call → Prop
  | .registerRoute method pattern =>
      method.text ≠ [] → pattern.text.head? = some slash →
        (∃ route ∈ inst.accepted,
          SameShape route.registration.key
            (keyOf method.text pattern.text)) →
          method.text ++ ascii " " ++ pattern.text ∈
            inst.accepted.map Route.text
  | .reset => True
  | .dispatch _ _ _ => True
  | .parseRequest _ => True
  | .dumpTrie => True

/-! ## The nodes of the accepted routes -/

variable {inst : Instance}

/-- The nodes with handlers are those of the accepted routes. -/
theorem Consistent.holds_iff
    (consistent : inst.Consistent) (key : List StdString) :
    inst.Holds key ↔
      ∃ route ∈ inst.accepted, SameShape route.registration.key key := by
  have table :
      (inst.state.registry.trie.root.walk (shapeOf key)).bind Node.handler =
        Table.latest (entries (inst.accepted.map Route.registration))
          (shapeOf key) := by
    have whole :=
      @registryOf_table Empty Int _ consistent.nulFree
    rw [← consistent.registry] at whole
    exact congrArg (fun table => table.value (shapeOf key)) whole
  rw [Holds, table, latest_entries_isSome_iff]
  constructor
  · rintro ⟨registration, member, same⟩
    rcases List.mem_map.mp member with ⟨route, accepted, rfl⟩
    exact ⟨route, accepted, same⟩
  · rintro ⟨route, accepted, same⟩
    exact ⟨route.registration, List.mem_map_of_mem accepted, same⟩

/-! ## Each route answers its own pattern -/

/--
Nothing that matches the text of a pattern is preferred to the
pattern.
-/
theorem not_prefers_own
    {other own : List StdString} (matching : KeyMatches other own) :
    ¬ Prefers (shapeOf other) (shapeOf own) := by
  induction matching with
  | nil => simp [Prefers, shapeOf]
  | @cons segment letters others rest first later induction =>
      intro preferred
      rcases List.cons_lex_cons_iff.mp preferred with
        different | ⟨-, tail⟩
      · -- A literal that matches a parameter's text would be a parameter.
        by_cases own : letters.head? = some colon
        · by_cases parameter : segment.head? = some colon
          · simp [segmentOf, own, parameter, Segment.slot,
              Slot.Prefers] at different
          · rcases first with rfl | parameter'
            · exact parameter own
            · exact parameter parameter'
        · by_cases parameter : segment.head? = some colon <;>
            simp [segmentOf, own, parameter, Segment.slot,
              Slot.Prefers] at different
      · exact induction tail

/-- No two accepted routes lead to one node. -/
def Distinct (inst : Instance) : Prop :=
  inst.accepted.Pairwise fun first second =>
    ¬ SameShape first.registration.key second.registration.key

theorem Distinct.eq
    (distinct : inst.Distinct) {first second : Route}
    (firstMember : first ∈ inst.accepted)
    (secondMember : second ∈ inst.accepted)
    (same : SameShape first.registration.key second.registration.key) :
    first = second := by
  by_contra different
  have symmetric :
      Std.Symm fun first second : Route =>
        ¬ SameShape first.registration.key second.registration.key :=
    ⟨fun _ _ apart same => apart same.symm⟩
  exact List.Pairwise.forall distinct firstMember secondMember different same

/-- If no two routes lead to one node, each answers its own pattern. -/
theorem Consistent.answers
    (consistent : inst.Consistent) (distinct : inst.Distinct)
    {route : Route} (accepted : route ∈ inst.accepted) :
    inst.Answers route := by
  have noNul := (consistent.checked route accepted).noNul
  let method : CPointer := some ⟨route.method, noNul.1⟩
  let path : CPointer := some ⟨route.pattern, noNul.2⟩
  have own : KeyMatches route.registration.key route.registration.key :=
    List.forall₂_same.mpr fun segment _ => Or.inl rfl
  refine ⟨method, path, fun ms => ?_⟩
  unfold State.dispatch
  split
  · next req missed =>
    exact absurd own (consistent.missed missed route accepted)
  · next id req found =>
    obtain ⟨index, other, located, isIndex, matching, preferred⟩ :=
      consistent.found found
    have shape :
        SameShape route.registration.key other.registration.key := by
      by_contra different
      exact
        not_prefers_own matching
          (preferred route accepted own different)
    obtain rfl :=
      distinct.eq accepted (List.mem_of_getElem? located) shape
    exact ⟨rfl, isIndex.trans (consistent.routeId_eq located).symm⟩

/-! ## Calls -/

theorem distinct_step
    (consistent : inst.Consistent) (distinct : inst.Distinct) {call : Call}
    (fresh : inst.FreshCall call) :
    (inst.step call).Distinct := by
  cases call with
  | reset => exact List.Pairwise.nil
  | registerRoute method pattern =>
      simp only [step]
      rcases inst.state.registerRoute_cases method pattern with
        ⟨what, refused, -⟩ | ⟨-, -, index, refused, -⟩ |
          ⟨nonempty, origin, new, taken⟩
      · rw [refused]
        exact distinct
      · rw [refused]
        exact distinct
      · rw [taken]
        show (inst.accepted ++ [_]).Pairwise _
        rw [List.pairwise_append]
        refine ⟨distinct, List.pairwise_singleton _ _, ?_⟩
        intro route accepted own member same
        rw [List.mem_singleton.mp member] at same
        have repeated := fresh nonempty origin ⟨route, accepted, same⟩
        rw [← consistent.patterns] at repeated
        exact new repeated
  | dispatch method path ms => exact distinct
  | parseRequest rawText => exact distinct
  | dumpTrie => exact distinct

theorem unreplaced_of_fresh
    (consistent : inst.Consistent) (distinct : inst.Distinct) {call : Call}
    (fresh : inst.FreshCall call) :
    inst.UnreplacedCall call := by
  have after := consistent_step consistent call
  have distinctAfter := distinct_step consistent distinct fresh
  cases call with
  | registerRoute method pattern =>
      constructor
      · intro nonempty origin held
        have repeated :=
          fresh nonempty origin ((consistent.holds_iff _).mp held)
        rw [← consistent.patterns] at repeated
        rcases inst.state.registerRoute_cases method pattern with
          ⟨what, -, noMethod | noOrigin⟩ | ⟨-, -, index, refused, -⟩ |
            ⟨-, -, new, -⟩
        · exact absurd noMethod nonempty
        · exact absurd origin noOrigin
        · exact ⟨_, congrArg Prod.snd refused⟩
        · exact absurd repeated new
      · intro routeId accepted route member same
        rcases inst.state.registerRoute_cases method pattern with
          ⟨what, refused, -⟩ | ⟨-, -, index, refused, -⟩ |
            ⟨nonempty, origin, new, -⟩
        · rw [refused] at accepted
          cases accepted
        · rw [refused] at accepted
          cases accepted
        · have repeated := fresh nonempty origin ⟨route, member, same⟩
          rw [← consistent.patterns] at repeated
          exact absurd repeated new
      · exact fun route accepted => after.answers distinctAfter accepted
  | reset => trivial
  | dispatch method path ms => trivial
  | parseRequest rawText => trivial
  | dumpTrie => trivial

theorem fresh_of_unreplaced
    (consistent : inst.Consistent) {call : Call}
    (unreplaced : inst.UnreplacedCall call) :
    inst.FreshCall call := by
  cases call with
  | registerRoute method pattern =>
      intro nonempty origin shared
      obtain ⟨routeId, reported⟩ :=
        unreplaced.refuses nonempty origin
          ((consistent.holds_iff _).mpr shared)
      rw [← consistent.patterns]
      rcases inst.state.registerRoute_cases method pattern with
        ⟨what, refused, -⟩ | ⟨-, -, index, -, found⟩ | ⟨-, -, -, taken⟩
      · rw [refused] at reported
        cases reported
      · exact List.mem_of_getElem? found
      · rw [taken] at reported
        cases reported
  | reset => trivial
  | dispatch method path ms => trivial
  | parseRequest rawText => trivial
  | dumpTrie => trivial

end Instance

/--
No registration of a run replaces a route if and only if every pattern
that leads to the node of an accepted route has been accepted with the same
text.
-/
theorem unreplaced_iff (calls : List Call) :
    Runs.Along Instance.step Instance.UnreplacedCall Instance.new calls ↔
      Runs.Along Instance.step Instance.FreshCall Instance.new calls := by
  constructor
  · exact
      @Runs.along_of_invariant _ _ Instance.step _ _ Instance.Consistent
        (fun _ call consistent _ =>
          Instance.consistent_step consistent call)
        (fun _ _ consistent unreplaced =>
          Instance.fresh_of_unreplaced consistent unreplaced)
        _ Instance.consistent_new _
  · exact
      @Runs.along_of_invariant _ _ Instance.step _ _
        (fun inst => inst.Consistent ∧ inst.Distinct)
        (fun _ call invariant fresh =>
          ⟨Instance.consistent_step invariant.1 call,
            Instance.distinct_step invariant.1 invariant.2 fresh⟩)
        (fun _ _ invariant fresh =>
          Instance.unreplaced_of_fresh invariant.1 invariant.2 fresh)
        _ ⟨Instance.consistent_new, List.Pairwise.nil⟩ _

/-- The methods registered contain neither a colon nor a slash. -/
def TokenCall : Call → Prop
  | .registerRoute method _ => colon ∉ method.text ∧ slash ∉ method.text
  | .reset => True
  | .dispatch _ _ _ => True
  | .parseRequest _ => True
  | .dumpTrie => True

/-- A trailing slash. -/
def slashCalls : List Call :=
  [.registerRoute (CPointer.ofAscii "GET") (CPointer.ofAscii "/a"),
    .registerRoute (CPointer.ofAscii "GET") (CPointer.ofAscii "/a/")]

/-- A pattern with a trailing slash replaces the one without. -/
theorem slash_replaces :
    ¬ ∀ calls : List Call, (∀ call ∈ calls, TokenCall call) →
        Runs.Along Instance.step Instance.UnreplacedCall Instance.new
          calls := by
  intro claim
  have tokens : ∀ call ∈ slashCalls, TokenCall call := by
    intro call member
    rcases List.mem_cons.mp member with rfl | member
    · exact ⟨by decide, by decide⟩
    · rw [List.mem_singleton.mp member]
      exact ⟨by decide, by decide⟩
  rcases claim slashCalls tokens with ⟨-, unreplaced, -⟩
  obtain ⟨routeId, reported⟩ :=
    unreplaced.refuses (by decide) (by decide) (by decide +kernel)
  have accepted :
      ((Instance.new.step
          (.registerRoute (CPointer.ofAscii "GET")
            (CPointer.ofAscii "/a"))).state.registerRoute
        (CPointer.ofAscii "GET") (CPointer.ofAscii "/a/")).2 =
        .accepted 1 := by
    decide +kernel
  rw [accepted] at reported
  cases reported

end Wasm

end PlusWeb
