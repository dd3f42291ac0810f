import PlusWeb.RouteParameters
import PlusWeb.NestedMounts

/-!
# What dispatch sees of a path

A path enters the trie as a C string, so the trie compares what stands before
the first NUL.  `url_decode` makes a NUL from `%00`, and the middleware before
the trie compares all bytes.

A path without a NUL is seen whole.  Behind a NUL something always goes
unseen: more segments, or the rest of the last one.  A parameter at the end
of the pattern still matches the whole of the last segment, but it is bound
to the visible part of it, and that is a segment of the path only if an
earlier segment happens to have the same text.
-/

namespace PlusWeb

open ListSearch WildcardTable

variable {J : Type}

/--
The pattern matches the complete path, and every value bound is a
complete segment of it.
-/
def SeesWholePath
    (req : HttpRequest J) (pattern : StdString) (params : StdMap) : Prop :=
  KeyMatches (keyOf req.method pattern) (keyOf req.method req.path) ∧
    ∀ name value : StdString, params[name]? = some value →
      value ∈ Utils.pieces slash req.path

/--
The trie sees all segments of the path but the end of the last one, what
it sees of that one repeats an earlier segment, and the pattern ends in a
parameter.
-/
def RepeatsVisibleEnd (pattern path : StdString) : Prop :=
  ∃ front shown whole,
    segments path = front ++ [shown] ∧
      Utils.pieces slash path = front ++ [whole] ∧
      shown ∈ front ∧
      ∃ parameter,
        (segments pattern).getLast? = some parameter ∧
          parameter.head? = some colon

/-! ## Pieces of a text that goes on -/

/-- What follows a text changes its last piece only. -/
theorem pieces_append_last (separator : UInt8) (text : StdString) :
    ∃ front shown,
      separator ∉ shown ∧
        Utils.pieces separator text =
          front ++ (if shown ≠ [] then [shown] else []) ∧
        ∀ later,
          Utils.pieces separator (text ++ later) =
            front ++ Utils.pieces separator (shown ++ later) := by
  induction size : text.length using Nat.strong_induction_on
    generalizing text with
  | _ size shorter =>
      by_cases member : separator ∈ text
      · rcases List.eq_append_cons_of_mem member with ⟨start, rest, rfl, -⟩
        simp only [List.length_append, List.length_cons] at size
        obtain ⟨front, shown, apart, pieces, later⟩ :=
          shorter rest.length (by omega) rest rfl
        refine
          ⟨Utils.pieces separator start ++ front, shown, apart, ?_, ?_⟩
        · rw [Utils.pieces_append_cons, pieces, List.append_assoc]
        · intro back
          rw [List.append_assoc, List.cons_append,
            Utils.pieces_append_cons, later, List.append_assoc]
      · exact
          ⟨[], text, member, Utils.pieces_of_notMem member, fun _ => rfl⟩

/-- The segments of a key, NUL or not. -/
theorem keyOf_eq
    {method : StdString} (token : MethodToken method) (path : StdString) :
    keyOf method path =
      (method ++ ascii ":" ++ before slash path) ::
        Utils.pieces slash (after slash path) := by
  have noSlash : slash ∉ method ++ ascii ":" := by
    have other : slash ≠ colon := by decide
    simpa [token.noSlash, ascii] using other
  rw [keyOf, pieces_eq, before_append noSlash, after_append noSlash,
    if_pos (by simp [token.nonempty])]
  rfl

/-- The keys of one method match as their paths do. -/
theorem keyMatches_keyOf_iff
    {method : StdString} (token : MethodToken method)
    (pattern path : StdString) :
    KeyMatches (keyOf method pattern) (keyOf method path) ↔
      before slash pattern = before slash path ∧
        KeyMatches (Utils.pieces slash (after slash pattern))
          (Utils.pieces slash (after slash path)) := by
  rw [keyOf_eq token, keyOf_eq token]
  refine List.forall₂_cons.trans (and_congr_left' ?_)
  constructor
  · rintro (same | parameter)
    · exact List.append_cancel_left same
    · cases method with
      | nil => exact absurd rfl token.nonempty
      | cons letter method =>
          obtain rfl : letter = colon := by simpa using parameter
          exact absurd (List.mem_cons_self ..) token.noColon
  · intro same
    exact Or.inl (congrArg _ same)

/-! ## Paths with a NUL -/

section Hidden

variable {pattern path : StdString}

/--
A NUL before the first slash belongs to a segment that is no
parameter.
-/
theorem not_sees_of_early_nul
    {method shown hidden : StdString} (token : MethodToken method)
    (noSlash : slash ∉ shown)
    (same : before slash pattern = shown) :
    ¬ KeyMatches (keyOf method pattern)
        (keyOf method (shown ++ 0 :: hidden)) := by
  rw [keyMatches_keyOf_iff token, same, before_append noSlash]
  rintro ⟨longer, -⟩
  have cut : before slash ((0 : UInt8) :: hidden) = 0 :: before slash hidden :=
    rfl
  rw [cut] at longer
  simpa using congrArg List.length longer

/-- The piece around a NUL, and the pieces behind it. -/
theorem pieces_append_nul
    {shown : StdString} (apart : slash ∉ shown) (hidden : StdString) :
    Utils.pieces slash (shown ++ 0 :: hidden) =
      (shown ++ 0 :: before slash hidden) ::
        Utils.pieces slash (after slash hidden) := by
  have other : (0 : UInt8) ≠ slash := by decide
  have front : before slash ((0 : UInt8) :: hidden) = 0 :: before slash hidden :=
    rfl
  have back : after slash ((0 : UInt8) :: hidden) = after slash hidden := by
    simp [after, other]
  rw [pieces_eq, before_append apart, after_append apart, front, back,
    if_pos (by simp)]
  rfl

/--
A pattern without a NUL that matches what is seen also matches what there
is exactly if nothing but the end of the last segment goes unseen, and the
pattern has a parameter there.
-/
theorem keyMatches_whole_iff
    {segments front extra : List StdString} {shown hidden : StdString}
    (free : ∀ segment ∈ segments, (0 : UInt8) ∉ segment)
    (matching :
      KeyMatches segments (front ++ if shown ≠ [] then [shown] else [])) :
    KeyMatches segments (front ++ (shown ++ 0 :: hidden) :: extra) ↔
      shown ≠ [] ∧ extra = [] ∧
        ∃ early last,
          segments = early ++ [last] ∧ early.length = front.length ∧
            last.head? = some colon := by
  have split (back : List StdString) :
      KeyMatches segments (front ++ back) ↔
        KeyMatches (segments.take front.length) front ∧
          KeyMatches (segments.drop front.length) back := by
    constructor
    · intro all
      exact
        ⟨List.forall₂_take_append _ _ _ all,
          List.forall₂_drop_append _ _ _ all⟩
    · rintro ⟨early, late⟩
      rw [← List.take_append_drop front.length segments]
      exact List.rel_append early late
  rcases (split _).mp matching with ⟨early, late⟩
  constructor
  · intro all
    rcases (split _).mp all with ⟨-, ending⟩
    by_cases nothing : shown = []
    · rw [if_neg (not_not.mpr nothing)] at late
      rw [List.forall₂_nil_right_iff.mp late] at ending
      cases ending
    · rw [if_pos nothing] at late
      obtain ⟨last, none, own, done, only⟩ :=
        List.forall₂_cons_right_iff.mp late
      obtain rfl := List.forall₂_nil_right_iff.mp done
      rw [only] at ending
      rcases List.forall₂_cons.mp ending with ⟨whole, done⟩
      have cut : segments = segments.take front.length ++ [last] := by
        rw [← only, List.take_append_drop]
      refine
        ⟨nothing, List.forall₂_nil_left_iff.mp done, _, last, cut,
          early.length_eq, ?_⟩
      refine whole.resolve_left fun same => ?_
      have member : last ∈ segments := by
        rw [cut]
        simp
      exact free last member (by simp [same])
  · rintro ⟨something, rfl, front', last, rfl, lengths, parameter⟩
    refine (split _).mpr ⟨early, ?_⟩
    rw [← lengths, List.drop_left]
    exact .cons (Or.inr parameter) .nil

/--
The parameter at the end of a registered pattern is bound to what the
trie sees of the last segment.
-/
theorem last_bound
    {registrations : List (Registration (Option Nat))}
    {registration : Registration (Option Nat)} {method : StdString}
    {front early : List StdString} {shown last : StdString}
    (member : registration ∈ registrations)
    (head :
      headSegment registration.method registration.path =
        headSegment method path)
    (parameter : last.head? = some colon)
    (patternEnds : tailSegments registration.path = early ++ [last])
    (pathEnds : tailSegments path = front ++ [shown])
    (lengths : early.length = front.length) :
    ∃ name : StdString,
      (StdMap.insertAll ∅
        (firstNamed registrations method registration.path path))[name]? =
          some shown := by
  have shape :
      shapeOf (early ++ [last]) = shapeOf early ++ [.wild] := by
    simp [shapeOf, patternOf, Pattern.shape, segmentOf, parameter,
      Segment.slot]
  have entry :
      (patternOf (early ++ [last]), registration.handler) ∈
        routesAt (headSegment method path) registrations := by
    refine List.mem_map.mpr ⟨registration, ?_, by rw [patternEnds]⟩
    exact List.mem_filter.mpr ⟨member, by simpa using head⟩
  have named :
      ((firstNames (routesAt (headSegment method path)
        registrations)).name (shapeOf early)).isSome := by
    show (Table.firstName _ (shapeOf early)).isSome
    rw [Table.firstName, List.findSome?_isSome_iff]
    refine ⟨_, entry, (Pattern.nameBelow_isSome_iff _ _).mpr ?_⟩
    rw [← shape]
    exact List.prefix_refl _
  rcases Option.isSome_iff_exists.mp named with ⟨name, named⟩
  have shapeLength : (shapeOf early).length = front.length := by
    simpa [shapeOf, patternOf, Pattern.shape] using lengths
  refine ⟨name, ?_⟩
  rw [firstNamed, patternEnds, pathEnds, shape,
    Table.bindings_append_wild shapeLength named]
  exact StdMap.getElem?_insertAll_append_singleton _ _ _ _

end Hidden

/-! ## Dispatch -/

section Dispatched

variable {calls : List SetupCall} {target : Target} {req : HttpRequest J}
  {label : Nat} {verb : Verb} {pattern : StdString}

/-- A value bound by dispatch is a segment that the trie sees. -/
theorem bound_of_dispatch
    (token : MethodToken req.method)
    (placed : calls[label]? = some (.route target verb pattern true))
    (dispatched :
      ((Setup.build calls).dispatch req target).1 = some label)
    {name value : StdString}
    (bound :
      ((Setup.build calls).dispatch req target).2.params[name]? =
        some value) :
    value ∈ tailSegments req.path := by
  rcases params_of_dispatch token placed dispatched with ⟨-, -, written⟩
  rw [written] at bound
  have entry :=
    (StdMap.mem_of_getElem?_insertAll bound).resolve_right (by simp)
  exact Table.mem_key_of_mem_bindings entry

/-- A path without a NUL is seen whole. -/
theorem sees_of_noNul
    (token : MethodToken req.method)
    (placed : calls[label]? = some (.route target verb pattern true))
    (free : (0 : UInt8) ∉ pattern)
    (dispatched :
      ((Setup.build calls).dispatch req target).1 = some label)
    (noNul : (0 : UInt8) ∉ req.path) :
    SeesWholePath req pattern
      ((Setup.build calls).dispatch req target).2.params := by
  rcases params_of_dispatch token placed dispatched with ⟨same, matching, -⟩
  simp only [tailSegments, StdString.cStr_eq_self free,
    StdString.cStr_eq_self noNul] at same matching
  constructor
  · exact (keyMatches_keyOf_iff token _ _).mpr ⟨same, matching⟩
  · intro name value bound
    have member := bound_of_dispatch token placed dispatched bound
    rw [tailSegments, StdString.cStr_eq_self noNul] at member
    rw [pieces_eq]
    exact List.mem_append_right _ member

/--
A path with a NUL behind a slash, cut into the segments of both readings:
`shown` is what the trie sees of the segment with the NUL.
-/
structure CutAtNul
    (path hidden : StdString) (start front : List StdString)
    (shown : StdString) : Prop where
  head : before slash (StdString.cStr path) = before slash path
  tail :
    tailSegments path = front ++ if shown ≠ [] then [shown] else []
  tailWhole :
    Utils.pieces slash (after slash path) =
      front ++ (shown ++ 0 :: before slash hidden) ::
        Utils.pieces slash (after slash hidden)
  seen : segments path = start ++ tailSegments path
  whole :
    Utils.pieces slash path =
      start ++ Utils.pieces slash (after slash path)

theorem cutAtNul
    {path start rest hidden : StdString} (noSlash : slash ∉ start)
    (visible : (0 : UInt8) ∉ start ++ slash :: rest)
    (cut : path = start ++ slash :: (rest ++ 0 :: hidden)) :
    ∃ front shown,
      CutAtNul path hidden (if start ≠ [] then [start] else []) front
        shown := by
  obtain ⟨front, shown, apart, seen, later⟩ :=
    pieces_append_last slash rest
  have read : StdString.cStr path = start ++ slash :: rest := by
    rw [cut, show start ++ slash :: (rest ++ 0 :: hidden) =
      (start ++ slash :: rest) ++ 0 :: hidden by simp,
      StdString.cStr_append visible]
    simp [StdString.cStr]
  refine ⟨front, shown, ?_, ?_, ?_, ?_, ?_⟩
  · rw [read, cut, before_append_cons noSlash, before_append_cons noSlash]
  · rw [tailSegments, read, after_append_cons noSlash, seen]
  · rw [cut, after_append_cons noSlash, later, pieces_append_nul apart]
  · rw [segments, split_path, read, before_append_cons noSlash]
  · rw [pieces_eq, cut, before_append_cons noSlash]

/--
Behind a NUL after a slash, the pattern matches the complete path and all
values are segments of it exactly if only the end of the last segment goes
unseen and an earlier segment has the visible text.
-/
theorem sees_of_late_nul
    (token : MethodToken req.method)
    (placed : calls[label]? = some (.route target verb pattern true))
    (free : (0 : UInt8) ∉ pattern)
    (dispatched :
      ((Setup.build calls).dispatch req target).1 = some label)
    {start rest hidden : StdString} (noSlash : slash ∉ start)
    (visible : (0 : UInt8) ∉ start ++ slash :: rest)
    (path : req.path = start ++ slash :: (rest ++ 0 :: hidden)) :
    SeesWholePath req pattern
        ((Setup.build calls).dispatch req target).2.params ↔
      RepeatsVisibleEnd pattern req.path := by
  obtain ⟨registration, member, rfl, head, -, -⟩ :=
    found_of_dispatch token placed dispatched
  obtain ⟨same, matching, written⟩ :=
    params_of_dispatch token placed dispatched
  rcases cutAtNul noSlash visible path with ⟨front, shown, cut⟩
  rcases cut with ⟨begun, tail, all, seenPath, wholePath⟩
  generalize (if start ≠ [] then [start] else []) = begin
    at seenPath wholePath
  have own : tailSegments registration.path =
      Utils.pieces slash (after slash registration.path) := by
    rw [tailSegments, StdString.cStr_eq_self free]
  have first : before slash registration.path = before slash req.path := by
    rw [StdString.cStr_eq_self free, begun] at same
    exact same
  have segmentFree :
      ∀ segment ∈ tailSegments registration.path, (0 : UInt8) ∉ segment :=
    fun segment inside => (mem_tailSegments inside).2.2
  rw [tail] at matching
  have keys := keyMatches_keyOf_iff token registration.path req.path
  rw [and_iff_right first, ← own, all,
    keyMatches_whole_iff segmentFree matching] at keys
  rw [tail] at seenPath
  rw [all] at wholePath
  rw [SeesWholePath, keys]
  constructor
  · rintro ⟨⟨something, none, early, last, ends, lengths, parameter⟩, bound⟩
    rw [if_pos something] at seenPath tail
    rw [none] at wholePath
    obtain ⟨name, held⟩ :=
      last_bound member head parameter ends tail lengths
    have inside := bound name shown (by rw [written]; exact held)
    refine
      ⟨begin ++ front, shown, _, by rw [seenPath, List.append_assoc],
        by rw [wholePath, List.append_assoc], ?_, last, ?_, parameter⟩
    · rw [wholePath, ← List.append_assoc] at inside
      rcases List.mem_append.mp inside with earlier | itself
      · exact earlier
      · have longer := congrArg List.length (List.mem_singleton.mp itself)
        simp at longer
    · rw [segments, split_path, ends, ← List.append_assoc,
        List.getLast?_concat]
  · rintro
      ⟨front', shown', whole', seen', whole, repeated, last, ends, parameter⟩
    rw [wholePath, ← List.append_assoc] at whole
    rw [seenPath, ← List.append_assoc] at seen'
    have counted := congrArg List.length whole
    have counted' := congrArg List.length seen'
    simp only [List.length_append, List.length_cons, List.length_nil]
      at counted counted'
    by_cases nothing : shown = []
    · rw [if_neg (not_not.mpr nothing), List.length_nil] at counted'
      omega
    · rw [if_pos nothing] at seen' matching tail counted'
      rw [List.length_singleton] at counted'
      have none :
          Utils.pieces slash (after slash hidden) = [] :=
        List.eq_nil_of_length_eq_zero (by omega)
      rcases List.append_inj' seen' rfl with ⟨rfl, sameShown⟩
      have lengths := List.Forall₂.length_eq matching
      rw [List.length_append, List.length_singleton] at lengths
      rcases List.eq_nil_or_concat (tailSegments registration.path) with
        empty | ⟨early, final, cutLast⟩
      · rw [empty] at lengths
        cases lengths
      · rw [List.concat_eq_append] at cutLast
        rw [segments, split_path, cutLast, ← List.append_assoc,
          List.getLast?_concat] at ends
        obtain rfl := Option.some.inj ends
        rw [cutLast, List.length_append, List.length_singleton] at lengths
        refine
          ⟨⟨nothing, none, early, final, cutLast, by omega, parameter⟩, ?_⟩
        intro name value bound
        have inside := bound_of_dispatch token placed dispatched bound
        rw [tail] at inside
        rw [wholePath, ← List.append_assoc]
        apply List.mem_append_left
        rcases List.mem_append.mp inside with early | final
        · exact List.mem_append_right _ early
        · obtain rfl := List.mem_singleton.mp final
          obtain rfl := List.singleton_inj.mp sameShown
          exact repeated

/--
Dispatch sees the whole path if and only if the path has no NUL, or the
NUL hides the end of the last segment only, the pattern ends in a parameter
and the visible part of that segment is also an earlier segment.
-/
theorem whole_path_iff
    (token : MethodToken req.method)
    (placed : calls[label]? = some (.route target verb pattern true))
    (free : (0 : UInt8) ∉ pattern)
    (dispatched :
      ((Setup.build calls).dispatch req target).1 = some label) :
    SeesWholePath req pattern
        ((Setup.build calls).dispatch req target).2.params ↔
      (0 : UInt8) ∉ req.path ∨ RepeatsVisibleEnd pattern req.path := by
  by_cases noNul : (0 : UInt8) ∉ req.path
  · exact
      iff_of_true (sees_of_noNul token placed free dispatched noNul)
        (Or.inl noNul)
  · rw [or_iff_right noNul]
    obtain ⟨visible, hidden, path, noZero⟩ :=
      List.eq_append_cons_of_mem (not_not.mp noNul)
    by_cases cuts : slash ∈ visible
    · rcases List.eq_append_cons_of_mem cuts with ⟨start, rest, rfl, noSlash⟩
      have cut : req.path = start ++ slash :: (rest ++ 0 :: hidden) := by
        rw [path]
        simp
      exact
        sees_of_late_nul token placed free dispatched noSlash noZero cut
    · -- the NUL stands before the first slash
      have cut : StdString.cStr req.path = visible := by
        rw [path, StdString.cStr_append noZero]
        simp [StdString.cStr]
      rcases params_of_dispatch token placed dispatched with ⟨same, -, -⟩
      rw [StdString.cStr_eq_self free, cut, before_of_notMem cuts] at same
      apply iff_of_false
      · rintro ⟨matching, -⟩
        rw [path] at matching
        exact not_sees_of_early_nul token cuts same matching
      · rintro ⟨front, shown, whole, seen, -, repeated, -⟩
        rw [segments_eq, cut, Utils.pieces_of_notMem cuts] at seen
        have counted := congrArg List.length seen
        have positive := List.length_pos_of_mem repeated
        rw [List.length_append, List.length_singleton] at counted
        split at counted
        · simp only [List.length_singleton] at counted
          omega
        · simp at counted

end Dispatched

/-- A page that anyone may read, and files by name. -/
def pageCalls : List SetupCall :=
  [.route .server .GET (ascii "/public") true,
    .route .server .GET (ascii "/files/:name") true]

/-- The request for a target that is in the origin form. -/
def requestFor (target : StdString) : HttpRequest FlatJson :=
  (Exchange.arriving (ascii "GET") (Utils.urlDecode target)).req

theorem requestFor_token (target : StdString) :
    MethodToken (requestFor target).method := by
  show MethodToken (ascii "GET")
  constructor <;> decide

theorem whole_path_iff_file :
    SeesWholePath (requestFor (ascii "/files/a%20b")) (ascii "/files/:name")
      ((Setup.build pageCalls).dispatch
        (requestFor (ascii "/files/a%20b")) .server).2.params := by
  have placed :
      pageCalls[1]? =
        some (.route .server .GET (ascii "/files/:name") true) := rfl
  apply
    (whole_path_iff (requestFor_token _) placed (by decide)
      (by decide +kernel)).mpr
  left
  decide +kernel

/-- The trie answers `/public` where the path goes on behind a NUL. -/
theorem whole_path_cut :
    ¬ ∀ (calls : List SetupCall) (target : Target)
        (req : HttpRequest FlatJson) (label : Nat) (verb : Verb)
        (pattern : StdString),
        MethodToken req.method →
        calls[label]? = some (.route target verb pattern true) →
        (0 : UInt8) ∉ pattern →
        ((Setup.build calls).dispatch req target).1 = some label →
        SeesWholePath req pattern
          ((Setup.build calls).dispatch req target).2.params := by
  intro claim
  have sees :=
    claim pageCalls .server (requestFor (ascii "/public%00/secret")) 0 .GET
      (ascii "/public") (requestFor_token _) rfl (by decide)
      (by decide +kernel)
  have lengths := List.Forall₂.length_eq sees.1
  revert lengths
  decide +kernel

end PlusWeb
