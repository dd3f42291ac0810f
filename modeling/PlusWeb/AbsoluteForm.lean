import PlusWeb.RequestTarget

/-!
# Absolute-form targets

`applyTarget` looks for the end of the authority with `find('/')`, so that a
target with a path is routed as the path and the query alone would be.  Where
the authority is followed by the query, everything up to the first `/` of the
query is dropped with the authority, or the whole query if it has none.
-/

namespace PlusWeb

open ListSearch

variable {J : Type}

/-- The origin form of what follows the authority. -/
def originForm (rest : StdString) : StdString :=
  if rest.head? = some slash then rest else slash :: rest

theorem head_originForm (rest : StdString) :
    (originForm rest).head? = some slash := by
  unfold originForm
  split_ifs with own
  · exact own
  · rfl

/-- The absolute form. -/
def absoluteForm (scheme authority rest : StdString) : StdString :=
  scheme ++ schemeMark ++ authority ++ rest

/-- The path that is routed. -/
def routedPath (text : StdString) : StdString :=
  if pathPart text = [] then ascii "/" else pathPart text

/-- The query map of a text, up to a NUL. -/
def routedQuery (text : StdString) : StdMap :=
  queryMap (StdString.cStr (queryPart text))

theorem applyTarget_eq
    (target : StdString) {req : HttpRequest J} (noQuery : req.query = ∅) :
    applyTarget target req =
      { req with
        path := routedPath (keptPart (Utils.urlDecode target))
        query := routedQuery (keptPart (Utils.urlDecode target)) } := by
  rw [applyTarget, stripAuthority_eq, separateQuery_eq _ noQuery]
  rfl

/--
What the stripping keeps of the decoded target has the path and the query
of the origin form.
-/
def KeepsRoute (target origin : StdString) : Prop :=
  routedPath (keptPart (Utils.urlDecode target)) = routedPath origin ∧
    routedQuery (keptPart (Utils.urlDecode target)) = routedQuery origin

/--
A decoded target that is routed as an origin form, by where its first `://`
and the next `/` lie.
-/
inductive RouteKept (decoded origin : StdString) : Prop
  /-- There is no `://`, and the path and the query are the same. -/
  | whole
      (unmarked : ¬ schemeMark <:+: decoded)
      (path : routedPath decoded = pathPart origin)
      (pairs : routedQuery decoded = routedQuery origin)
  /--
  The first `/` behind the first `://` begins the path of the origin form,
  which ends the target or has a query with the same pairs.
  -/
  | copied (front authority more : StdString)
      (cut :
        decoded =
          front ++ schemeMark ++ authority ++ pathPart origin ++ more)
      (first : indexOf schemeMark decoded = some front.length)
      (noSlash : slash ∉ authority)
      (ends : more = [] ∨ more.head? = some questionMark)
      (pairs :
        queryMap (StdString.cStr (after questionMark more)) =
          routedQuery origin)
  /--
  No `/` follows the first `://`, the path is `/`, and the query has no
  pair.
  -/
  | bare (front authority : StdString)
      (cut : decoded = front ++ schemeMark ++ authority)
      (first : indexOf schemeMark decoded = some front.length)
      (noSlash : slash ∉ authority)
      (path : pathPart origin = ascii "/")
      (pairs : routedQuery origin = ∅)

/-- The path that is routed of what begins with a `/`. -/
theorem routedPath_of_origin
    {text : StdString} (origin : text.head? = some slash) :
    routedPath text = pathPart text :=
  if_neg (pathPart_ne_nil origin)

/-- What is kept behind a `://` is routed as it stands. -/
theorem routedPath_keptPart
    {text front tail : StdString}
    (cut : text = front ++ schemeMark ++ tail)
    (first : indexOf schemeMark text = some front.length) :
    routedPath (keptPart text) = pathPart (keptPart text) := by
  apply routedPath_of_origin
  rw [keptPart_of_first cut first]
  rfl

/--
What the stripping keeps of a decoded target has the path and the query of an
origin form exactly if the target has one of these shapes.
-/
theorem routeKept_iff
    {decoded origin : StdString} (form : origin.head? = some slash) :
    RouteKept decoded origin ↔
      routedPath (keptPart decoded) = routedPath origin ∧
        routedQuery (keptPart decoded) = routedQuery origin := by
  have begins := head_pathPart form
  have noQuery : questionMark ∉ pathPart origin := notMem_before
  rw [routedPath_of_origin form]
  constructor
  · intro kept
    cases kept with
    | whole unmarked path pairs =>
        rw [keptPart_of_notInfix unmarked]
        exact ⟨path, pairs⟩
    | copied front authority more cut first noSlash ends pairs =>
        rw [List.append_assoc, List.append_assoc,
          ← List.append_assoc authority] at cut
        rw [routedPath_keptPart cut first]
        exact
          (keptPart_marked_iff cut first begins noQuery).mpr
            (.inl ⟨authority, more, rfl, noSlash, ends, pairs⟩)
    | bare front authority cut first noSlash path pairs =>
        rw [routedPath_keptPart cut first]
        exact
          (keptPart_marked_iff cut first begins noQuery).mpr
            (.inr ⟨noSlash, path, pairs⟩)
  · intro kept
    by_cases marked : schemeMark <:+: decoded
    · rcases exists_first_mark marked with ⟨front, tail, cut, first⟩
      rw [routedPath_keptPart cut first] at kept
      rcases (keptPart_marked_iff cut first begins noQuery).mp kept with
        ⟨authority, more, rfl, noSlash, ends, pairs⟩ | ⟨absent, path, pairs⟩
      · refine .copied front authority more ?_ first noSlash ends pairs
        rwa [List.append_assoc, List.append_assoc,
          ← List.append_assoc authority]
      · exact .bare front tail cut first absent path pairs
    · rw [keptPart_of_notInfix marked] at kept
      exact .whole marked kept.1 kept.2

/--
A query is as good as what begins with its first `/`: that has an empty
path, or begins with another query, and the same last value for each key.
-/
def QueryKept (query : StdString) : Prop :=
  (after slash query = [] ∨ (after slash query).head? = some questionMark) ∧
    queryMap (StdString.cStr (after questionMark (after slash query))) =
      queryMap (StdString.cStr query)

theorem originForm_plain
    {rest : StdString} (unmarked : ¬ schemeMark <:+: rest)
    (noPercent : (37 : UInt8) ∉ rest) (noPlus : (43 : UInt8) ∉ rest) :
    keptPart (Utils.urlDecode (originForm rest)) = originForm rest := by
  unfold originForm
  split_ifs
  · rw [Utils.urlDecode_eq_self noPercent noPlus,
      keptPart_of_notInfix unmarked]
  · rw [Utils.urlDecode_eq_self, keptPart_of_notInfix]
    · rw [List.infix_cons_iff]
      rintro (⟨_, same⟩ | inside)
      · exact absurd (List.cons.inj same).1 (by decide)
      · exact unmarked inside
    · rw [List.mem_cons, not_or]
      exact ⟨by decide, noPercent⟩
    · rw [List.mem_cons, not_or]
      exact ⟨by decide, noPlus⟩

/--
With a scheme without escapes, what begins with the first `/` behind the
authority is kept.
-/
theorem keptPart_absoluteForm
    {scheme authority rest : StdString}
    (noColon : colon ∉ scheme) (noEscape : (37 : UInt8) ∉ scheme)
    (noSlash : slash ∉ authority) (noPercent : (37 : UInt8) ∉ authority)
    (noPlus : (43 : UInt8) ∉ authority) (noPercent' : (37 : UInt8) ∉ rest)
    (noPlus' : (43 : UInt8) ∉ rest) :
    keptPart (Utils.urlDecode (absoluteForm scheme authority rest)) =
      slash :: after slash rest := by
  have mark : schemeMark = [colon, slash, slash] := by decide
  have plain (byte : UInt8) (other : byte ∉ schemeMark)
      (own : byte ∉ authority) (own' : byte ∉ rest) :
      byte ∉ schemeMark ++ (authority ++ rest) := by
    simp [other, own, own']
  have decoded :
      Utils.urlDecode (absoluteForm scheme authority rest) =
        Utils.urlDecode scheme ++ (schemeMark ++ (authority ++ rest)) := by
    rw [absoluteForm, List.append_assoc, List.append_assoc,
      Utils.urlDecode_append noEscape,
      Utils.urlDecode_eq_self
        (plain 37 (by decide) noPercent noPercent')
        (plain 43 (by decide) noPlus noPlus')]
  have unmarked : colon ∉ Utils.urlDecode scheme := by
    intro inside
    rcases Utils.mem_of_mem_urlDecode noEscape inside with blank | inside
    · exact absurd blank (by decide)
    · exact noColon inside
  have found :
      indexOf schemeMark
          (Utils.urlDecode scheme ++ (schemeMark ++ (authority ++ rest))) =
        some (Utils.urlDecode scheme).length := by
    rw [mark]
    exact indexOf_append_of_notMem unmarked _
  have behind :
      (Utils.urlDecode scheme ++ (schemeMark ++ (authority ++ rest))).drop
          ((Utils.urlDecode scheme).length + 3) =
        authority ++ rest := by
    rw [← List.append_assoc]
    apply List.drop_left'
    rw [List.length_append]
    rfl
  rw [decoded, keptPart, found]
  dsimp only
  rw [behind, after_append noSlash]

/-- The path and the query of a `/` in front of a text without that byte. -/
theorem routedPath_slash (text : StdString) :
    routedPath (slash :: text) = slash :: before questionMark text := by
  have visible : slash ≠ questionMark := by decide
  have path :
      pathPart (slash :: text) = slash :: before questionMark text := by
    rw [pathPart, before, List.takeWhile_cons_of_pos (by simpa using visible)]
    rfl
  rw [routedPath, path, if_neg (List.cons_ne_nil _ _)]

theorem routedQuery_slash (text : StdString) :
    routedQuery (slash :: text) =
      queryMap (StdString.cStr (after questionMark text)) := by
  have visible : slash ≠ questionMark := by decide
  simp [routedQuery, queryPart, after, visible]

theorem before_eq_nil_iff (text : StdString) :
    before questionMark text = [] ↔
      text = [] ∨ text.head? = some questionMark := by
  cases text with
  | nil => simp [before]
  | cons first text =>
      by_cases own : first = questionMark
      · subst own
        simp [before]
      · simp [before, own]

/--
Only the scheme of an absolute form has escapes, and one at its end may take
bytes of the `://`.
-/
theorem urlDecode_absoluteForm
    (scheme : StdString) {authority rest : StdString}
    (noPercent : (37 : UInt8) ∉ authority)
    (noPlus : (43 : UInt8) ∉ authority) (noPercent' : (37 : UInt8) ∉ rest)
    (noPlus' : (43 : UInt8) ∉ rest) :
    Utils.urlDecode (absoluteForm scheme authority rest) =
      Utils.urlDecode (scheme ++ schemeMark) ++ (authority ++ rest) := by
  have mark : scheme ++ schemeMark = scheme ++ [colon] ++ [slash, slash] := by
    rw [List.append_assoc]
    rfl
  have behind : Utils.urlDecode (authority ++ rest) = authority ++ rest :=
    Utils.urlDecode_eq_self (by simp [noPercent, noPercent'])
      (by simp [noPlus, noPlus'])
  have decoded :=
    Utils.urlDecode_append_pair (scheme ++ [colon])
      (by decide : slash ≠ 37) (by decide : slash ≠ 37) (authority ++ rest)
  rw [absoluteForm, List.append_assoc _ authority, mark, List.append_assoc]
  rw [behind] at decoded
  exact decoded

/--
The absolute form is routed as the origin form if and only if what the
stripping keeps has its path and its query.

For a scheme without escapes that is always so if the authority is followed
by a path or by nothing, and if it is followed by a query, exactly if the
query is as good as what begins with its first `/`.  For any scheme it is by
where the first `://` of the decoded target and the next `/` lie; an escape of
the scheme may put a `://` before its end, or take the one behind it.
-/
theorem applyTarget_absolute_iff
    {scheme authority rest : StdString}
    (noColon : colon ∉ scheme) (noSlash : slash ∉ authority)
    (noPercent : (37 : UInt8) ∉ authority)
    (noPlus : (43 : UInt8) ∉ authority)
    (shape : rest = [] ∨ rest.head? = some slash ∨
      rest.head? = some questionMark)
    (noPercent' : (37 : UInt8) ∉ rest) (noPlus' : (43 : UInt8) ∉ rest)
    (unmarked : ¬ schemeMark <:+: rest)
    {req : HttpRequest J} (noQuery : req.query = ∅) :
    ((applyTarget (absoluteForm scheme authority rest) req).path =
          (applyTarget (originForm rest) req).path ∧
        (applyTarget (absoluteForm scheme authority rest) req).query =
          (applyTarget (originForm rest) req).query ↔
      KeepsRoute (absoluteForm scheme authority rest) (originForm rest)) ∧
    ((37 : UInt8) ∉ scheme →
      (KeepsRoute (absoluteForm scheme authority rest) (originForm rest) ↔
        ∀ query, rest = questionMark :: query → QueryKept query)) ∧
    (KeepsRoute (absoluteForm scheme authority rest) (originForm rest) ↔
      RouteKept (Utils.urlDecode (scheme ++ schemeMark) ++ (authority ++ rest))
        (originForm rest)) := by
  refine ⟨?_, ?_, ?_⟩
  · rw [applyTarget_eq _ noQuery, applyTarget_eq _ noQuery,
      originForm_plain unmarked noPercent' noPlus']
    rfl
  case refine_3 =>
    rw [KeepsRoute,
      urlDecode_absoluteForm scheme noPercent noPlus noPercent' noPlus',
      routeKept_iff (head_originForm rest)]
  intro noEscape
  rw [KeepsRoute,
    keptPart_absoluteForm noColon noEscape noSlash noPercent noPlus
      noPercent' noPlus']
  have visible : questionMark ≠ slash := by decide
  rcases shape with rfl | path | query
  · apply iff_of_true
    · exact ⟨rfl, rfl⟩
    · intro query other
      cases other
  · obtain ⟨rest, rfl⟩ : ∃ tail, rest = slash :: tail := by
      cases rest with
      | nil => cases path
      | cons first tail => exact ⟨tail, by rw [Option.some.inj path]⟩
    have kept : slash :: after slash (slash :: rest) = slash :: rest := by
      simp [after]
    apply iff_of_true
    · rw [kept, originForm, if_pos path]
      exact ⟨rfl, rfl⟩
    · intro query other
      exact absurd (List.cons.inj other).1.symm visible
  · obtain ⟨text, rfl⟩ : ∃ tail, rest = questionMark :: tail := by
      cases rest with
      | nil => cases query
      | cons first tail => exact ⟨tail, by rw [Option.some.inj query]⟩
    have origin :
        originForm (questionMark :: text) =
          slash :: questionMark :: text := by
      apply if_neg
      intro same
      exact visible (Option.some.inj same)
    have skipped :
        after slash (questionMark :: text) = after slash text := by
      simp [after, visible]
    have path : before questionMark (questionMark :: text) = [] := by
      simp [before]
    have behind : after questionMark (questionMark :: text) = text := by
      simp [after]
    rw [origin, skipped, routedPath_slash, routedPath_slash,
      routedQuery_slash, routedQuery_slash, path, behind]
    simp only [List.cons.injEq, true_and, before_eq_nil_iff]
    constructor
    · rintro kept query rfl
      exact kept
    · intro kept
      exact kept text rfl

theorem applyTarget_absolute_iff_items :
    (applyTarget
          (absoluteForm (ascii "http") (ascii "host") (ascii "/items?id=1"))
          (HttpRequest.new : HttpRequest FlatJson)).path =
        (applyTarget (originForm (ascii "/items?id=1"))
          (HttpRequest.new : HttpRequest FlatJson)).path ∧
      (applyTarget
          (absoluteForm (ascii "http") (ascii "host") (ascii "/items?id=1"))
          (HttpRequest.new : HttpRequest FlatJson)).query =
        (applyTarget (originForm (ascii "/items?id=1"))
          (HttpRequest.new : HttpRequest FlatJson)).query := by
  obtain ⟨routed, explicit, -⟩ :=
    @applyTarget_absolute_iff FlatJson (ascii "http") (ascii "host")
      (ascii "/items?id=1") (by decide) (by decide) (by decide) (by decide)
      (Or.inr (Or.inl (by decide))) (by decide) (by decide) (by decide)
      HttpRequest.new rfl
  apply routed.mpr
  apply (explicit (by decide)).mpr
  intro query other
  have first : some slash = some questionMark :=
    congrArg List.head? other
  exact absurd first (by decide)

/-- The path is taken from the query. -/
theorem applyTarget_absolute_query :
    ¬ ∀ scheme authority rest : StdString,
        colon ∉ scheme → slash ∉ scheme → authority ≠ [] →
        slash ∉ authority → questionMark ∉ authority →
        (37 : UInt8) ∉ authority → (43 : UInt8) ∉ authority →
        (rest = [] ∨ rest.head? = some slash ∨
          rest.head? = some questionMark) →
        (37 : UInt8) ∉ rest → (43 : UInt8) ∉ rest →
        ¬ schemeMark <:+: rest →
        (applyTarget (absoluteForm scheme authority rest)
            (HttpRequest.new : HttpRequest FlatJson)).path =
          (applyTarget (originForm rest)
            (HttpRequest.new : HttpRequest FlatJson)).path := by
  intro claim
  have same :=
    claim (ascii "http") (ascii "host") (ascii "?next=/admin") (by decide)
      (by decide) (by decide) (by decide) (by decide) (by decide)
      (by decide) (Or.inr (Or.inr (by decide))) (by decide) (by decide)
      (by decide)
  exact absurd same (by decide +kernel)

end PlusWeb
