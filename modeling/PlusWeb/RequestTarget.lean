import PlusWeb.HttpMessage
import PlusWeb.Utils

/-!
# `applyTarget`: from the request target to path and query

The anonymous-namespace function of the parser that decodes a request
target, strips the scheme and authority of an absolute form, and separates
the query.

For origin-form targets the intended result is stated on the bytes of the
target alone: the path is what precedes the first `?`, the query is the
last-wins map of what follows.  The absolute-form stripping is tried on every
target, so this result is reached exactly when what the stripping keeps has
the same path and the same query.
-/

namespace PlusWeb

open ListSearch

/-- The bytes that mark an absolute form. -/
def schemeMark : StdString := ascii "://"

/--
The first step of `applyTarget` after decoding: drop the scheme and the
authority of an absolute form.
-/
def stripAuthority (decoded : StdString) : StdString :=
  match StdString.find decoded schemeMark 0 with
  | some scheme =>
      match StdString.find decoded (ascii "/") (scheme + 3) with
      | some pathStart => StdString.substr decoded pathStart
      | none => ascii "/"
  | none => decoded

/-- One round of the query loop of `applyTarget`. -/
def addPair (query : StdMap) (pair : StdString) : StdMap :=
  match StdString.find pair (ascii "=") 0 with
  | some eq =>
      query.insert (StdString.substrCount pair 0 eq)
        (StdString.substr pair (eq + 1))
  | none => query

/-- The rest of `applyTarget`: separate the path from the query. -/
def separateQuery {J : Type} (decoded : StdString) (req : HttpRequest J) :
    HttpRequest J :=
  let q := StdString.find decoded (ascii "?") 0
  let path :=
    match q with
    | some q => StdString.substrCount decoded 0 q
    | none => decoded
  let req := { req with path := if path = [] then ascii "/" else path }
  match q with
  | some q =>
      { req with
        query :=
          (Utils.split (StdString.substr decoded (q + 1))
            (ascii "&")).foldl addPair req.query }
  | none => req

/-- `applyTarget`. -/
def applyTarget {J : Type} (target : StdString) (req : HttpRequest J) :
    HttpRequest J :=
  separateQuery (stripAuthority (Utils.urlDecode target)) req

/-! ## Path and query of a text -/

/-- The bytes before the first `?`. -/
def pathPart (text : StdString) : StdString :=
  before questionMark text

/-- The bytes after the first `?`. -/
def queryPart (text : StdString) : StdString :=
  after questionMark text

/--
Record one piece: split it at its first `=`, ignore it if there is
none.
-/
def recordPiece (query : StdMap) (piece : StdString) : StdMap :=
  if equalsSign ∈ piece then
    query.insert (before equalsSign piece) (after equalsSign piece)
  else query

/-- The last-wins map of the non-empty pieces between `&`. -/
def queryMap (text : StdString) : StdMap :=
  (Utils.pieces ampersand text).foldl recordPiece ∅

theorem addPair_eq : addPair = recordPiece := by
  funext query pair
  have letter : ascii "=" = [equalsSign] := by decide
  rw [addPair, StdString.find_zero, letter, recordPiece]
  cases found : indexOf [equalsSign] pair with
  | none =>
      rw [if_neg (indexOf_singleton_eq_none_iff.mp found)]
  | some eq =>
      rcases cut_of_indexOf_singleton found with ⟨member, key, value⟩
      rw [if_pos member, ← key, ← value]
      rfl

/-- What `separateQuery` computes, for a request without a query. -/
theorem separateQuery_eq
    {J : Type} (decoded : StdString)
    {req : HttpRequest J} (noQuery : req.query = ∅) :
    separateQuery decoded req =
      { req with
        path :=
          if pathPart decoded = [] then ascii "/" else pathPart decoded
        query := queryMap (StdString.cStr (queryPart decoded)) } := by
  have letter : ascii "?" = [questionMark] := by decide
  have separator : ascii "&" = [ampersand] := by decide
  rw [separateQuery, StdString.find_zero, letter, separator]
  cases found : indexOf [questionMark] decoded with
  | none =>
      have absent := indexOf_singleton_eq_none_iff.mp found
      simp [pathPart, queryPart, before_of_notMem absent,
        after_of_notMem absent, queryMap, StdString.cStr, noQuery]
  | some q =>
      rcases cut_of_indexOf_singleton found with ⟨-, path, query⟩
      simp only [StdString.substrCount, StdString.substr, List.drop_zero,
        path, query, noQuery, addPair_eq,
        Utils.split_singleton (by decide : ampersand ≠ 0)]
      rfl

/-! ## Origin-form targets -/

/--
The part of a text that the absolute-form stripping keeps: everything, or
what begins with the first `/` after the first `://`.
-/
def keptPart (text : StdString) : StdString :=
  match indexOf schemeMark text with
  | some offset => slash :: after slash (text.drop (offset + 3))
  | none => text

theorem stripAuthority_eq (text : StdString) :
    stripAuthority text = keptPart text := by
  rw [stripAuthority, StdString.find_zero, keptPart, ascii_slash]
  cases indexOf schemeMark text with
  | none => rfl
  | some scheme =>
      cases found : StdString.find text [slash] (scheme + 3) with
      | none =>
          have absent :=
            indexOf_singleton_eq_none_iff.mp
              ((StdString.find_eq_none_iff (by simp)).mp found)
          simp [found, after_of_notMem absent]
      | some pathStart =>
          simp only [found]
          exact StdString.drop_of_find_singleton found

theorem keptPart_of_notInfix
    {text : StdString} (plain : ¬ schemeMark <:+: text) :
    keptPart text = text := by
  rw [keptPart, indexOf_eq_none_iff.mpr plain]

theorem head_keptPart
    {text : StdString} (origin : text.head? = some slash) :
    (keptPart text).head? = some slash := by
  rw [keptPart]
  cases indexOf schemeMark text with
  | none => exact origin
  | some offset => rfl

theorem head_pathPart
    {text : StdString} (origin : text.head? = some slash) :
    (pathPart text).head? = some slash := by
  cases text with
  | nil => cases origin
  | cons head tail =>
      obtain rfl : head = slash := Option.some.inj origin
      rw [pathPart, before, List.takeWhile_cons_of_pos (by decide)]
      rfl

theorem pathPart_ne_nil
    {text : StdString} (origin : text.head? = some slash) :
    pathPart text ≠ [] := by
  have begins := head_pathPart origin
  intro none
  rw [none] at begins
  cases begins

/--
On an origin-form target without escapes, `applyTarget` reads path and
query off the part the stripping keeps.
-/
theorem applyTarget_origin
    {J : Type} {target : StdString}
    (origin : target.head? = some slash)
    (noPercent : (37 : UInt8) ∉ target)
    (noPlus : (43 : UInt8) ∉ target)
    {req : HttpRequest J} (noQuery : req.query = ∅) :
    applyTarget target req =
      { req with
        path := pathPart (keptPart target)
        query :=
          queryMap (StdString.cStr (queryPart (keptPart target))) } := by
  rw [applyTarget, Utils.urlDecode_eq_self noPercent noPlus,
    stripAuthority_eq, separateQuery_eq _ noQuery,
    if_neg (pathPart_ne_nil (head_keptPart origin))]

/--
A target that is routed on its own path, by where its first `://` and the next
`/` lie.
-/
inductive PathKept (target : StdString) : Prop
  /-- There is no `://`, and a NUL in the query hides no pair. -/
  | whole
      (unmarked : ¬ schemeMark <:+: target)
      (pairs :
        queryMap (StdString.cStr (queryPart target)) =
          queryMap (queryPart target))
  /--
  The first `/` behind the first `://` begins a second copy of the path, which
  ends the target or has a query of its own, with the same pairs.
  -/
  | copied (front authority more : StdString)
      (cut :
        target =
          front ++ schemeMark ++ authority ++ pathPart target ++ more)
      (first : indexOf schemeMark target = some front.length)
      (noSlash : slash ∉ authority)
      (ends : more = [] ∨ more.head? = some questionMark)
      (pairs :
        queryMap (StdString.cStr (after questionMark more)) =
          queryMap (queryPart target))
  /--
  No `/` follows the first `://`, the path is `/`, and the query has no
  pair.
  -/
  | bare (front authority : StdString)
      (cut : target = front ++ schemeMark ++ authority)
      (first : indexOf schemeMark target = some front.length)
      (noSlash : slash ∉ authority)
      (path : pathPart target = ascii "/")
      (pairs : queryMap (queryPart target) = ∅)

/-- A target without `://` and without a NUL is kept whole. -/
theorem pathKept_of_plain
    {target : StdString}
    (plain : ¬ schemeMark <:+: target)
    (free : (0 : UInt8) ∉ target) :
    PathKept target := by
  have queryFree : (0 : UInt8) ∉ queryPart target := by
    intro member
    exact
      free ((List.dropWhile_suffix _).subset (List.mem_of_mem_drop member))
  exact .whole plain (by rw [StdString.cStr_eq_self queryFree])

/-- A text is its path, and then nothing or what begins with a `?`. -/
theorem exists_eq_pathPart_append (text : StdString) :
    ∃ more,
      text = pathPart text ++ more ∧
        (more = [] ∨ more.head? = some questionMark) ∧
          queryPart text = after questionMark more := by
  by_cases member : questionMark ∈ text
  · refine
      ⟨questionMark :: queryPart text, eq_before_cons_after member,
        .inr rfl, ?_⟩
    simp [after]
  · refine ⟨[], ?_, .inl rfl, ?_⟩
    · rw [List.append_nil, pathPart, before_of_notMem member]
    · rw [queryPart, after_of_notMem member, after_of_notMem (by simp)]

/-- The path and the query of a text that is cut at its first `?`. -/
theorem parts_of_cut
    {path more : StdString} (noQuery : questionMark ∉ path)
    (ends : more = [] ∨ more.head? = some questionMark) :
    pathPart (path ++ more) = path ∧
      queryPart (path ++ more) = after questionMark more := by
  refine ⟨?_, after_append noQuery⟩
  rw [pathPart, before_append noQuery]
  rcases ends with rfl | query
  · simp [before]
  · cases more with
    | nil => cases query
    | cons head more =>
        obtain rfl := Option.some.inj query
        simp [before]

/-- A text that contains `://` is cut at the first one. -/
theorem exists_first_mark
    {text : StdString} (marked : schemeMark <:+: text) :
    ∃ front tail,
      text = front ++ schemeMark ++ tail ∧
        indexOf schemeMark text = some front.length := by
  obtain ⟨offset, found⟩ :
      ∃ offset, indexOf schemeMark text = some offset := by
    rw [← Option.isSome_iff_exists, ← Option.ne_none_iff_isSome, ne_eq,
      indexOf_eq_none_iff, not_not]
    exact marked
  have bound := indexOf_bound found
  refine
    ⟨text.take offset, text.drop (offset + 3), indexOf_append found, ?_⟩
  rw [found, List.length_take, Nat.min_eq_left (by omega)]

/-- What is kept of a target that is cut at its first `://`. -/
theorem keptPart_of_first
    {target front tail : StdString}
    (cut : target = front ++ schemeMark ++ tail)
    (first : indexOf schemeMark target = some front.length) :
    keptPart target = slash :: after slash tail := by
  have behind : target.drop (front.length + 3) = tail := by
    rw [cut]
    apply List.drop_left'
    rw [List.length_append]
    rfl
  rw [keptPart, first]
  dsimp only
  rw [behind]

/--
The path and the query that are kept of a target that is cut at its first
`://`, by where the next `/` lies.
-/
theorem keptPart_marked_iff
    {target front tail path : StdString} {pairs : StdMap}
    (cut : target = front ++ schemeMark ++ tail)
    (first : indexOf schemeMark target = some front.length)
    (begins : path.head? = some slash) (noQuery : questionMark ∉ path) :
    (pathPart (keptPart target) = path ∧
        queryMap (StdString.cStr (queryPart (keptPart target))) = pairs) ↔
      (∃ authority more, tail = authority ++ path ++ more ∧
          slash ∉ authority ∧
            (more = [] ∨ more.head? = some questionMark) ∧
              queryMap (StdString.cStr (after questionMark more)) = pairs) ∨
        slash ∉ tail ∧ path = ascii "/" ∧ pairs = ∅ := by
  rw [keptPart_of_first cut first]
  constructor
  · rintro ⟨samePath, samePairs⟩
    by_cases member : slash ∈ tail
    · obtain ⟨more, whole, ends, query⟩ :=
        exists_eq_pathPart_append (slash :: after slash tail)
      rw [samePath] at whole
      rw [query] at samePairs
      refine
        .inl ⟨before slash tail, more, ?_, notMem_before, ends, samePairs⟩
      rw [List.append_assoc, ← whole]
      exact eq_before_cons_after member
    · rw [after_of_notMem member] at samePath samePairs
      exact .inr ⟨member, samePath.symm, samePairs.symm⟩
  · rintro (⟨authority, more, rfl, noSlash, ends, rfl⟩ | ⟨absent, rfl, rfl⟩)
    · obtain ⟨path, rfl⟩ : ∃ below, path = slash :: below := by
        cases path with
        | nil => cases begins
        | cons head below => exact ⟨below, by rw [Option.some.inj begins]⟩
      have parts := parts_of_cut noQuery ends
      rw [List.append_assoc, List.cons_append, after_append_cons noSlash,
        ← List.cons_append, parts.1, parts.2]
      exact ⟨rfl, rfl⟩
    · rw [after_of_notMem absent]
      decide +kernel

/--
What the stripping keeps of an origin form has the path and the query of the
whole target exactly if the target has one of these shapes.
-/
theorem pathKept_iff
    {target : StdString} (origin : target.head? = some slash) :
    PathKept target ↔
      pathPart (keptPart target) = pathPart target ∧
        queryMap (StdString.cStr (queryPart (keptPart target))) =
          queryMap (queryPart target) := by
  have begins := head_pathPart origin
  have noQuery : questionMark ∉ pathPart target := notMem_before
  constructor
  · intro kept
    cases kept with
    | whole unmarked pairs =>
        rw [keptPart_of_notInfix unmarked]
        exact ⟨rfl, pairs⟩
    | copied front authority more cut first noSlash ends pairs =>
        rw [List.append_assoc, List.append_assoc,
          ← List.append_assoc authority] at cut
        exact
          (keptPart_marked_iff cut first begins noQuery).mpr
            (.inl ⟨authority, more, rfl, noSlash, ends, pairs⟩)
    | bare front authority cut first noSlash path pairs =>
        exact
          (keptPart_marked_iff cut first begins noQuery).mpr
            (.inr ⟨noSlash, path, pairs⟩)
  · intro kept
    by_cases marked : schemeMark <:+: target
    · rcases exists_first_mark marked with ⟨front, tail, cut, first⟩
      rcases (keptPart_marked_iff cut first begins noQuery).mp kept with
        ⟨authority, more, rfl, noSlash, ends, pairs⟩ | ⟨absent, path, pairs⟩
      · refine .copied front authority more ?_ first noSlash ends pairs
        rwa [List.append_assoc, List.append_assoc,
          ← List.append_assoc authority]
      · exact .bare front tail cut first absent path pairs
    · rw [keptPart_of_notInfix marked] at kept
      exact .whole marked kept.2

/-- The stripping shortens every text that contains `://`. -/
theorem keptPart_length_lt
    {text : StdString} (marked : schemeMark <:+: text) :
    (keptPart text).length < text.length := by
  rcases exists_first_mark marked with ⟨front, tail, cut, first⟩
  have rest : (after slash tail).length ≤ tail.length :=
    ((List.drop_suffix _ _).trans (List.dropWhile_suffix _)).length_le
  have length := congrArg List.length cut
  rw [List.length_append, List.length_append,
    show schemeMark.length = 3 from rfl] at length
  rw [keptPart_of_first cut first, List.length_cons]
  omega

/-- A path that contains `://` is never kept whole. -/
theorem not_pathKept_of_noQuery
    {target : StdString} (origin : target.head? = some slash)
    (marked : schemeMark <:+: target)
    (noQuery : questionMark ∉ target) :
    ¬ PathKept target := by
  rw [pathKept_iff origin]
  rintro ⟨samePath, -⟩
  have shorter := keptPart_length_lt marked
  have ofPath :
      (pathPart (keptPart target)).length ≤ (keptPart target).length :=
    (List.takeWhile_prefix _).length_le
  rw [samePath, pathPart, before_of_notMem noQuery] at ofPath
  omega

/--
When an origin-form target is routed on its own path.

It is exactly when there is no `://` in it, or when the first `/` behind the
first `://` begins a copy of the path that ends with the target or at a `?`,
and each query key has the same last value there.  A target without `://` (and
without a NUL, which ends the C string that is split) always is; a target with
`://` and no query never is.
-/
theorem applyTarget_origin_iff
    {J : Type} {target : StdString}
    (origin : target.head? = some slash)
    (noPercent : (37 : UInt8) ∉ target)
    (noPlus : (43 : UInt8) ∉ target)
    {req : HttpRequest J} (noQuery : req.query = ∅) :
    (((applyTarget target req).path = pathPart target ∧
        (applyTarget target req).query = queryMap (queryPart target)) ↔
      PathKept target) ∧
      (¬ schemeMark <:+: target → (0 : UInt8) ∉ target →
        PathKept target) ∧
      (schemeMark <:+: target → questionMark ∉ target →
        ¬ PathKept target) := by
  refine ⟨?_, pathKept_of_plain, not_pathKept_of_noQuery origin⟩
  rw [applyTarget_origin origin noPercent noPlus noQuery,
    pathKept_iff origin]

/-- A target whose query repeats it behind an authority. -/
theorem applyTarget_origin_iff_copied :
    (applyTarget (ascii "/search?://host/search?")
        (HttpRequest.new : HttpRequest FlatJson)).path = ascii "/search" ∧
      (applyTarget (ascii "/search?q=cats")
        (HttpRequest.new : HttpRequest FlatJson)).path =
          ascii "/search" := by
  have plain :=
    @applyTarget_origin_iff FlatJson (ascii "/search?q=cats")
      (by decide) (by decide) (by decide) HttpRequest.new rfl
  have copied :=
    @applyTarget_origin_iff FlatJson (ascii "/search?://host/search?")
      (by decide) (by decide) (by decide) HttpRequest.new rfl
  have unmarked : ¬ schemeMark <:+: ascii "/search?q=cats" := by decide
  refine ⟨(copied.1.mpr ?_).1, ?_⟩
  · exact
      .copied (ascii "/search?") (ascii "host") (ascii "?")
        (by decide +kernel) (by decide +kernel) (by decide)
        (.inr (by decide)) (by decide +kernel)
  · exact (plain.1.mpr (plain.2.1 unmarked (by decide))).1

/-- A redirect-style query value chooses the path that is routed. -/
theorem applyTarget_redirect :
    ¬ ∀ target : StdString, target.head? = some slash →
        (37 : UInt8) ∉ target → (43 : UInt8) ∉ target →
        (applyTarget target (HttpRequest.new : HttpRequest FlatJson)).path =
            pathPart target ∧
          (applyTarget target
              (HttpRequest.new : HttpRequest FlatJson)).query =
            queryMap (queryPart target) := by
  intro claim
  have routed :=
    (claim (ascii "/login?next=http://example/admin")
      (by decide) (by decide) (by decide)).1
  have admin :
      (applyTarget (ascii "/login?next=http://example/admin")
        (HttpRequest.new : HttpRequest FlatJson)).path = ascii "/admin" := by
    decide +kernel
  rw [admin] at routed
  exact absurd routed (by decide)

end PlusWeb
