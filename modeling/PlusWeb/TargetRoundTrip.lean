import PlusWeb.RequestTarget
import PlusWeb.RouteTables

/-!
# Encoding a target and reading it back

`Utils::urlEncode` escapes every byte that could be taken for structure, but
`applyTarget` decodes the whole target before it cuts it.  A value survives
the way there and back exactly when its bytes, decoded, hold none of the
separators that are searched for afterwards.

For a query these are `&`, the `=` behind a key, `://` and NUL; for a
parameter of the path `/`, `?` and NUL.
-/

namespace PlusWeb

open ListSearch WildcardTable

variable {J : Type}

/-! ## Query strings -/

/-- One entry of a query, encoded. -/
def encodedPair (entry : StdString × StdString) : StdString :=
  Utils.urlEncode entry.1 ++ ascii "=" ++ Utils.urlEncode entry.2

/-- The entries of a query, encoded and joined. -/
def encodedQuery (entries : List (StdString × StdString)) : StdString :=
  (ascii "&").intercalate (entries.map encodedPair)

/-- One entry as the decoder leaves it. -/
def decodedPair (entry : StdString × StdString) : StdString :=
  entry.1 ++ equalsSign :: entry.2

/-- The query as the decoder leaves it. -/
def decodedQuery (entries : List (StdString × StdString)) : StdString :=
  [ampersand].intercalate (entries.map decodedPair)

/-- Nothing in the entry is taken for a separator once it is decoded. -/
def Separable (entry : StdString × StdString) : Prop :=
  equalsSign ∉ entry.1 ∧
    ∀ text ∈ [entry.1, entry.2],
      ampersand ∉ text ∧ (0 : UInt8) ∉ text ∧ ¬ schemeMark <:+: text

instance (entry : StdString × StdString) : Decidable (Separable entry) :=
  inferInstanceAs (Decidable (_ ∧ _))

/-- A path that is neither escaped nor cut. -/
structure PlainPath (path : StdString) : Prop where
  origin : path.head? = some slash
  noPercent : (37 : UInt8) ∉ path
  noPlus : (43 : UInt8) ∉ path
  noMark : questionMark ∉ path
  noScheme : ¬ schemeMark <:+: path

theorem urlDecode_encodedPair_append
    (entry : StdString × StdString) (rest : StdString) :
    Utils.urlDecode (encodedPair entry ++ rest) =
      decodedPair entry ++ Utils.urlDecode rest := by
  have sign : ascii "=" = [equalsSign] := by decide
  rw [encodedPair, sign, List.append_assoc, List.append_assoc,
    Utils.urlDecode_urlEncode_append,
    Utils.urlDecode_plain_append (by decide) (by decide),
    Utils.urlDecode_urlEncode_append]
  simp [decodedPair]

theorem urlDecode_encodedQuery (entries : List (StdString × StdString)) :
    Utils.urlDecode (encodedQuery entries) = decodedQuery entries := by
  have sign : ascii "&" = [ampersand] := by decide
  have ended : Utils.urlDecode [] = [] := rfl
  induction entries with
  | nil => rfl
  | cons entry entries induction =>
      have first := urlDecode_encodedPair_append entry
      cases entries with
      | nil => simpa [ended, encodedQuery, decodedQuery] using first []
      | cons next entries =>
          rw [encodedQuery, decodedQuery, List.map_cons, List.map_cons,
            List.map_cons, List.map_cons, List.intercalate_cons_cons,
            List.intercalate_cons_cons, List.append_assoc, first, sign,
            Utils.urlDecode_plain_append (by decide) (by decide)]
          simpa [encodedQuery, decodedQuery, sign] using induction

theorem applyTarget_encodedQuery
    {path : StdString} (plain : PlainPath path)
    (entries : List (StdString × StdString))
    {req : HttpRequest J} (noQuery : req.query = ∅) :
    let kept := keptPart (path ++ questionMark :: decodedQuery entries)
    applyTarget (path ++ ascii "?" ++ encodedQuery entries) req =
      { req with
        path := pathPart kept
        query := queryMap (StdString.cStr (queryPart kept)) } := by
  intro kept
  have mark : ascii "?" = [questionMark] := by decide
  have origin :
      (path ++ questionMark :: decodedQuery entries).head? =
        some slash := by
    simp [plain.origin]
  rw [applyTarget, List.append_assoc,
    Utils.urlDecode_plain_append plain.noPercent plain.noPlus, mark,
    Utils.urlDecode_plain_append (by decide) (by decide),
    urlDecode_encodedQuery, stripAuthority_eq, separateQuery_eq _ noQuery,
    List.singleton_append,
    if_neg (pathPart_ne_nil (head_keptPart origin))]

/-! ### What a query map can hold -/

theorem recordPiece_decodedPair
    {entry : StdString × StdString} (absent : equalsSign ∉ entry.1)
    (query : StdMap) :
    recordPiece query (decodedPair entry) =
      query.insert entry.1 entry.2 := by
  have member : equalsSign ∈ decodedPair entry := by
    simp [decodedPair]
  rw [recordPiece, if_pos member, decodedPair,
    before_append_cons absent, after_append_cons absent]

/--
A value was recorded from a piece that consists of its key, the first `=`
and the value.
-/
theorem mem_of_foldl_recordPiece
    {pieces : List StdString} {query : StdMap} {key value : StdString}
    (held : (pieces.foldl recordPiece query)[key]? = some value) :
    decodedPair (key, value) ∈ pieces ∧ equalsSign ∉ key ∨
      query[key]? = some value := by
  induction pieces generalizing query with
  | nil => exact Or.inr held
  | cons piece pieces induction =>
      rcases induction held with ⟨later, absent⟩ | here
      · exact Or.inl ⟨List.mem_cons_of_mem _ later, absent⟩
      · unfold recordPiece at here
        split at here
        · next member =>
          rw [StdMap.getElem?_insert] at here
          split at here
          · next same =>
            subst same
            have whole := eq_before_cons_after member
            rw [Option.some.inj here] at whole
            left
            constructor
            · rw [decodedPair, ← whole]
              exact List.mem_cons_self ..
            · exact notMem_before
          · exact Or.inr here
        · exact Or.inr here

/-- The bytes an entry takes up in a query, and one separator. -/
def weight (entry : StdString × StdString) : Nat :=
  entry.1.length + entry.2.length + 2

/-- Recording adds at most the bytes of the pieces. -/
theorem sumEntries_foldl_recordPiece_le
    (pieces : List StdString) (query : StdMap) :
    StdMap.sumEntries weight (pieces.foldl recordPiece query) ≤
      StdMap.sumEntries weight query +
        (pieces.map fun piece => piece.length + 1).sum := by
  induction pieces generalizing query with
  | nil => exact Nat.le_add_right _ _
  | cons piece pieces induction =>
      have rest := induction (recordPiece query piece)
      have first :
          StdMap.sumEntries weight (recordPiece query piece) ≤
            piece.length + 1 + StdMap.sumEntries weight query := by
        unfold recordPiece
        split
        · next member =>
          have whole := congrArg List.length (eq_before_cons_after member)
          have inserted :=
            StdMap.sumEntries_insert_le weight query
              (before equalsSign piece) (after equalsSign piece)
          simp only [List.length_append, List.length_cons] at whole
          simp only [weight] at inserted
          omega
        · exact Nat.le_add_left _ _
      rw [List.foldl_cons, List.map_cons, List.sum_cons]
      omega

/-- The entries of the query map of a text fit into the text. -/
theorem sum_weight_queryMap_le
    {text : StdString} {map : StdMap}
    (read : queryMap (StdString.cStr text) = map) :
    (map.toList.map weight).sum ≤ text.length + 1 := by
  have recorded :=
    sumEntries_foldl_recordPiece_le
      (Utils.pieces ampersand (StdString.cStr text)) ∅
  rw [StdMap.sumEntries_empty, Nat.zero_add] at recorded
  subst read
  calc
    _ ≤ ((Utils.pieces ampersand (StdString.cStr text)).map fun piece =>
          piece.length + 1).sum := recorded
    _ ≤ (StdString.cStr text).length + 1 := Utils.sum_length_pieces_le _ _
    _ ≤ text.length + 1 :=
      Nat.add_le_add_right (List.takeWhile_prefix _).length_le 1

theorem length_decodedQuery
    (entry : StdString × StdString)
    (entries : List (StdString × StdString)) :
    (decodedQuery (entry :: entries)).length + 1 =
      ((entry :: entries).map weight).sum := by
  induction entries generalizing entry with
  | nil =>
      simp [decodedQuery, decodedPair, weight]
      omega
  | cons next entries induction =>
      have later := induction next
      simp only [decodedQuery, List.map_cons, List.intercalate_cons_cons,
        List.length_append, List.sum_cons, List.length_singleton]
        at later ⊢
      simp only [decodedPair, weight, List.length_append,
        List.length_cons] at later ⊢
      omega

/-! ### The round trip -/

theorem schemeMark_decodedPair_iff (entry : StdString × StdString) :
    schemeMark <:+: decodedPair entry ↔
      schemeMark <:+: entry.1 ∨ schemeMark <:+: entry.2 :=
  infix_append_cons_iff (by decide)

/-- The mark of an absolute form does not reach across a separator. -/
theorem schemeMark_decodedQuery_iff
    (entries : List (StdString × StdString)) :
    schemeMark <:+: decodedQuery entries ↔
      ∃ entry ∈ entries,
        schemeMark <:+: entry.1 ∨ schemeMark <:+: entry.2 := by
  induction entries with
  | nil => simp [decodedQuery, schemeMark, ascii]
  | cons entry entries induction =>
      cases entries with
      | nil => simp [decodedQuery, schemeMark_decodedPair_iff]
      | cons next entries =>
          have cut :
              decodedQuery (entry :: next :: entries) =
                decodedPair entry ++
                  ampersand :: decodedQuery (next :: entries) := by
            simp [decodedQuery, List.intercalate_cons_cons]
          rw [cut, infix_append_cons_iff (by decide),
            schemeMark_decodedPair_iff, induction]
          simp

theorem mem_decodedQuery
    {entries : List (StdString × StdString)} {byte : UInt8}
    (member : byte ∈ decodedQuery entries) :
    byte = ampersand ∨ byte = equalsSign ∨
      ∃ entry ∈ entries, byte ∈ entry.1 ∨ byte ∈ entry.2 := by
  have ofPair {entry : StdString × StdString}
      (inside : byte ∈ decodedPair entry) :
      byte = equalsSign ∨ byte ∈ entry.1 ∨ byte ∈ entry.2 := by
    simp only [decodedPair, List.mem_append, List.mem_cons] at inside
    tauto
  induction entries with
  | nil => cases member
  | cons entry entries induction =>
      cases entries with
      | nil =>
          rcases ofPair (by simpa [decodedQuery] using member) with
            sign | inside
          · exact Or.inr (Or.inl sign)
          · exact Or.inr (Or.inr ⟨entry, by simp, inside⟩)
      | cons next entries =>
          simp only [decodedQuery, List.map_cons,
            List.intercalate_cons_cons, List.mem_append,
            List.mem_singleton] at member
          rcases member with (first | separator) | later
          · rcases ofPair first with sign | inside
            · exact Or.inr (Or.inl sign)
            · exact Or.inr (Or.inr ⟨entry, by simp, inside⟩)
          · exact Or.inl separator
          · rcases induction later with separator | sign | ⟨found, inside⟩
            · exact Or.inl separator
            · exact Or.inr (Or.inl sign)
            · exact
                Or.inr (Or.inr
                  ⟨found, List.mem_cons_of_mem _ inside.1, inside.2⟩)

/-- Separable entries are read back. -/
theorem queryMap_decodedQuery
    {entries : List (StdString × StdString)}
    (separable : ∀ entry ∈ entries, Separable entry) :
    queryMap (StdString.cStr (decodedQuery entries)) =
      StdMap.insertAll ∅ entries := by
  have visible : (0 : UInt8) ∉ decodedQuery entries := by
    intro member
    rcases mem_decodedQuery member with impossible | impossible | inside
    · exact absurd impossible (by decide)
    · exact absurd impossible (by decide)
    · rcases inside with ⟨entry, found, inside⟩
      rcases separable entry found with ⟨-, texts⟩
      rcases inside with key | value
      · exact (texts entry.1 (by simp)).2.1 key
      · exact (texts entry.2 (by simp)).2.1 value
  have proper :
      ∀ part ∈ entries.map decodedPair,
        part ≠ [] ∧ ampersand ∉ part := by
    intro part member
    rcases List.mem_map.mp member with ⟨entry, found, rfl⟩
    rcases separable entry found with ⟨-, texts⟩
    have key := (texts entry.1 (by simp)).1
    have value := (texts entry.2 (by simp)).1
    constructor
    · simp [decodedPair]
    · have sign : ampersand ≠ equalsSign := by decide
      simp [decodedPair, key, value, sign]
  rw [StdString.cStr_eq_self visible, queryMap, decodedQuery,
    Utils.pieces_intercalate proper]
  clear visible proper
  generalize (∅ : StdMap) = map
  induction entries generalizing map with
  | nil => rfl
  | cons entry entries induction =>
      rw [List.map_cons, List.foldl_cons, StdMap.insertAll_cons,
        recordPiece_decodedPair (separable entry (by simp)).1,
        induction fun later member =>
          separable later (List.mem_cons_of_mem _ member)]

/-- What the map of a kept part holds was separable, except for `://`. -/
theorem separators_of_queryMap
    {text key value : StdString}
    (held : (queryMap (StdString.cStr text))[key]? = some value) :
    equalsSign ∉ key ∧
      ∀ part ∈ [key, value], ampersand ∉ part ∧ (0 : UInt8) ∉ part := by
  rcases mem_of_foldl_recordPiece held with ⟨piece, sign⟩ | nothing
  · have separator := (Utils.mem_pieces piece).2
    have visible : (0 : UInt8) ∉ decodedPair (key, value) := fun inside =>
      StdString.zero_notMem_cStr text (Utils.mem_of_mem_pieces piece inside)
    simp only [decodedPair, List.mem_append, List.mem_cons, not_or]
      at separator visible
    exact ⟨sign, by simp [separator, visible]⟩
  · simp at nothing

/--
A target whose decoded query holds `://` is not read back: what is kept
is too short for the entries.
-/
theorem not_schemeMark_of_read
    {path : StdString} {map : StdMap}
    {entries : List (StdString × StdString)}
    (listed : entries.Perm map.toList)
    (samePath :
      pathPart (keptPart (path ++ questionMark :: decodedQuery entries)) =
        path)
    (sameQuery :
      queryMap (StdString.cStr (queryPart
        (keptPart (path ++ questionMark :: decodedQuery entries)))) =
        map) :
    ¬ schemeMark <:+: decodedQuery entries := by
  intro marked
  have shorter :=
    keptPart_length_lt
      ((infix_append_cons_iff (by decide)).mpr (Or.inr marked) :
        schemeMark <:+: path ++ questionMark :: decodedQuery entries)
  have fits := sum_weight_queryMap_le sameQuery
  rw [← (listed.map weight).sum_eq] at fits
  generalize keptPart (path ++ questionMark :: decodedQuery entries) = kept
    at shorter samePath fits
  cases entries with
  | nil => exact absurd marked (by decide)
  | cons entry entries =>
      rw [← length_decodedQuery] at fits
      simp only [List.length_append, List.length_cons] at shorter
      by_cases cuts : questionMark ∈ kept
      · have length := congrArg List.length (eq_before_cons_after cuts)
        change
          kept.length =
            (pathPart kept ++ questionMark :: queryPart kept).length
          at length
        rw [samePath, List.length_append, List.length_cons] at length
        omega
      · rw [queryPart, after_of_notMem cuts, List.length_nil] at fits
        have room : decodedQuery (entry :: entries) = [] :=
          List.eq_nil_of_length_eq_zero (by omega)
        rw [room] at marked
        exact absurd marked (by decide)

/--
A query is read back exactly if its entries are separable.

The target is a plain path with the entries of a map behind it, each key and
value encoded, in any order.
-/
theorem query_round_trip_iff
    {path : StdString} (plain : PlainPath path)
    {map : StdMap} {entries : List (StdString × StdString)}
    (listed : entries.Perm map.toList)
    {req : HttpRequest J} (noQuery : req.query = ∅) :
    let result :=
      applyTarget (path ++ ascii "?" ++ encodedQuery entries) req
    result.path = path ∧ result.query = map ↔
      ∀ entry ∈ map.toList, Separable entry := by
  intro result
  have read := applyTarget_encodedQuery plain entries noQuery
  constructor
  · rintro ⟨samePath, sameQuery⟩
    rw [show result = _ from read] at samePath sameQuery
    have unmarked := not_schemeMark_of_read listed samePath sameQuery
    rw [schemeMark_decodedQuery_iff] at unmarked
    rintro ⟨key, value⟩ member
    have held := Std.ExtTreeMap.mem_toList_iff_getElem?_eq_some.mp member
    rw [← show queryMap _ = map from sameQuery] at held
    rcases separators_of_queryMap held with ⟨sign, texts⟩
    refine ⟨sign, fun text inside => ⟨(texts text inside).1,
      (texts text inside).2, fun marked => unmarked ?_⟩⟩
    refine ⟨(key, value), listed.mem_iff.mpr member, ?_⟩
    simpa using
      (by simpa using inside : text = key ∨ text = value).imp
        (fun same => same ▸ marked) (fun same => same ▸ marked)
  · intro separable
    have listedSeparable : ∀ entry ∈ entries, Separable entry :=
      fun entry member => separable entry (listed.mem_iff.mp member)
    have unmarked :
        ¬ schemeMark <:+: path ++ questionMark :: decodedQuery entries := by
      rw [infix_append_cons_iff (by decide), not_or,
        schemeMark_decodedQuery_iff]
      refine ⟨plain.noScheme, ?_⟩
      rintro ⟨entry, found, key | value⟩
      · exact ((listedSeparable entry found).2 entry.1 (by simp)).2.2 key
      · exact ((listedSeparable entry found).2 entry.2 (by simp)).2.2 value
    rw [show result = _ from read, keptPart_of_notInfix unmarked]
    constructor
    · exact before_append_cons plain.noMark
    · show queryMap (StdString.cStr (queryPart _)) = map
      rw [queryPart, after_append_cons plain.noMark,
        queryMap_decodedQuery listedSeparable,
        StdMap.insertAll_of_perm listed]

/-- A query with a `+`, a `/`, a `?`, a `%` and bytes that are not ASCII. -/
def searchQuery : StdMap :=
  ((∅ : StdMap).insert (ascii "q") (ascii "a+b c/d?")).insert
    (ascii "100%") [195, 169]

theorem query_round_trip_iff_searchQuery :
    (applyTarget
      (ascii "/search" ++ ascii "?" ++ encodedQuery searchQuery.toList)
      (HttpRequest.new : HttpRequest FlatJson)).query = searchQuery := by
  have plain : PlainPath (ascii "/search") := by
    constructor <;> decide
  exact
    ((@query_round_trip_iff FlatJson _ plain searchQuery _
      (List.Perm.refl _) HttpRequest.new rfl).mpr (by decide +kernel)).2

/-- An encoded `&` ends the value. -/
theorem query_round_trip_ampersand :
    ¬ ∀ path : StdString, PlainPath path →
        ∀ map : StdMap,
          let result :=
            applyTarget (path ++ ascii "?" ++ encodedQuery map.toList)
              (HttpRequest.new : HttpRequest FlatJson)
          result.path = path ∧ result.query = map := by
  intro claim
  have plain : PlainPath (ascii "/search") := by
    constructor <;> decide
  have read :=
    (claim _ plain
      ((∅ : StdMap).insert (ascii "q") (ascii "rock&roll"))).2
  have lost := congrArg (·[ascii "q"]?) read
  revert lost
  decide +kernel

/-! ## Parameters of the path -/

/-- A server with one route, which has a parameter. -/
def namesCalls : List SetupCall :=
  [.route .server .GET (ascii "/names/:name") true]

/-- A value that is one segment of a path. -/
def IsSegment (value : StdString) : Prop :=
  slash ∉ value ∧ questionMark ∉ value ∧ (0 : UInt8) ∉ value

instance (value : StdString) : Decidable (IsSegment value) :=
  inferInstanceAs (Decidable (_ ∧ _))

theorem applyTarget_names
    (value : StdString) {req : HttpRequest J} (noQuery : req.query = ∅) :
    let kept := keptPart (ascii "/names/" ++ value)
    applyTarget (ascii "/names/" ++ Utils.urlEncode value) req =
      { req with
        path := pathPart kept
        query := queryMap (StdString.cStr (queryPart kept)) } := by
  intro kept
  have ended : Utils.urlDecode [] = [] := rfl
  have decoded : Utils.urlDecode (Utils.urlEncode value) = value := by
    simpa [ended] using Utils.urlDecode_urlEncode_append value []
  have origin : (ascii "/names/" ++ value).head? = some slash := rfl
  rw [applyTarget,
    Utils.urlDecode_plain_append (by decide) (by decide), decoded,
    stripAuthority_eq, separateQuery_eq _ noQuery,
    if_neg (pathPart_ne_nil (head_keptPart origin))]

theorem not_schemeMark_names
    {value : StdString} (noSlash : slash ∉ value) :
    ¬ schemeMark <:+: ascii "/names/" ++ value := by
  rintro ⟨front, back, equal⟩
  -- the mark takes both slashes, so it has to begin before the first one
  have count := congrArg (List.count slash) equal
  have inMark : schemeMark.count slash = 2 := by decide
  have inFront : (ascii "/names/").count slash = 2 := by decide
  simp only [List.count_append, inMark, inFront,
    List.count_eq_zero_of_not_mem noSlash] at count
  cases front with
  | nil =>
      have first := (List.cons.inj equal).1
      exact absurd first (by decide)
  | cons first front =>
      obtain rfl : first = slash := (List.cons.inj equal).1
      rw [List.count_cons_self] at count
      omega

theorem routesAt_names :
    routesAt (ascii "GET" ++ ascii ":") (registrationsOn .server namesCalls) =
      [([.literal (ascii "names"), .parameter (ascii "name")], some 0)] := by
  decide +kernel

theorem lookup_names (value : StdString) :
    (routeTable (ascii "GET" ++ ascii ":")
        (registrationsOn .server namesCalls)).lookup
          [ascii "names", value] =
      some ([.literal (ascii "names"), .wild], 0) := by
  rw [routeTable, routesAt_names]
  simp [Table.insertLog_cons, Table.lookup, Table.insert, Table.empty,
    Segment.slot]

theorem bindings_names (value : StdString) :
    (routeTable (ascii "GET" ++ ascii ":")
        (registrationsOn .server namesCalls)).bindings
          [.literal (ascii "names"), .wild] [ascii "names", value] =
      [(ascii "name", value)] := by
  rw [routeTable, routesAt_names]
  rfl

/-- A value is read back as the parameter exactly if it is one segment. -/
theorem path_parameter_round_trip_iff
    {value : StdString} (nonempty : value ≠ [])
    {req : HttpRequest J} (method : req.method = ascii "GET")
    (noQuery : req.query = ∅) :
    let arrived :=
      applyTarget (ascii "/names/" ++ Utils.urlEncode value) req
    let dispatched := (Setup.build namesCalls).server.getHandler arrived
    dispatched.1 = some 0 ∧
        dispatched.2.params[ascii "name"]? = some value ∧
        dispatched.2.query = ∅ ↔
      IsSegment value := by
  intro arrived dispatched
  have token : MethodToken arrived.method := by
    have same : arrived.method = ascii "GET" := by
      rw [show arrived = _ from applyTarget_names value noQuery]
      exact method
    rw [same]
    constructor <;> decide
  rw [show dispatched = _ from server_getHandler namesCalls token, answer]
  constructor
  · rintro ⟨hit, bound, -⟩
    cases found :
        (routeTable (headSegment arrived.method arrived.path)
          (registrationsOn .server namesCalls)).lookup
            (tailSegments arrived.path) with
    | none => simp [found] at hit
    | some hit =>
        simp only [found] at bound
        have entry :=
          (StdMap.mem_of_getElem?_insertAll bound).resolve_right (by simp)
        have segment := Table.mem_key_of_mem_bindings entry
        rcases mem_tailSegments segment with ⟨-, noSlash, noNul⟩
        refine ⟨noSlash, fun mark => ?_, noNul⟩
        have inPath := mem_path_of_mem_tailSegments segment mark
        rw [show arrived = _ from applyTarget_names value noQuery] at inPath
        exact notMem_before inPath
  · rintro ⟨noSlash, noMark, noNul⟩
    have whole :
        keptPart (ascii "/names/" ++ value) = ascii "/names/" ++ value :=
      keptPart_of_notInfix (not_schemeMark_names noSlash)
    have unmarked : questionMark ∉ ascii "/names/" ++ value := by
      rw [List.mem_append, not_or]
      exact ⟨by decide, noMark⟩
    have path : arrived.path = ascii "/names/" ++ value := by
      rw [show arrived = _ from applyTarget_names value noQuery, whole]
      exact before_of_notMem unmarked
    have query : arrived.query = ∅ := by
      rw [show arrived = _ from applyTarget_names value noQuery, whole,
        queryPart, after_of_notMem unmarked]
      rfl
    have same : arrived.method = ascii "GET" := by
      rw [show arrived = _ from applyTarget_names value noQuery]
      exact method
    have segments : tailSegments arrived.path = [ascii "names", value] := by
      have visible : (0 : UInt8) ∉ ascii "/names/" ++ value := by
        rw [List.mem_append, not_or]
        exact ⟨by decide, noNul⟩
      rw [path, tailSegments, StdString.cStr_eq_self visible]
      show Utils.pieces slash (ascii "names" ++ slash :: value) = _
      rw [Utils.pieces_append_cons, Utils.pieces_of_notMem (by decide),
        Utils.pieces_of_notMem noSlash, if_pos nonempty]
      rfl
    have head :
        headSegment arrived.method arrived.path =
          ascii "GET" ++ ascii ":" := by
      rw [same, path]
      exact headSegment_of_origin _ rfl
    simp only [head, segments, lookup_names, bindings_names]
    exact
      ⟨trivial,
        StdMap.getElem?_insertAll_of_mem (by simp) (by simp) ∅, query⟩

theorem path_parameter_round_trip_iff_spaced :
    ((Setup.build namesCalls).server.getHandler
      (applyTarget (ascii "/names/" ++ Utils.urlEncode (ascii "100% a:b+c"))
        (Exchange.arriving (ascii "GET") []).req)).1 = some 0 :=
  ((@path_parameter_round_trip_iff FlatJson (ascii "100% a:b+c")
    (by decide) (Exchange.arriving (ascii "GET") []).req rfl rfl).mpr
      (by decide)).1

/-- An encoded slash ends the segment, and the route is missed. -/
theorem path_parameter_round_trip_slash :
    ¬ ∀ value : StdString, value ≠ [] →
        let arrived :=
          applyTarget (ascii "/names/" ++ Utils.urlEncode value)
            (Exchange.arriving (ascii "GET") []).req
        let dispatched := (Setup.build namesCalls).server.getHandler arrived
        dispatched.1 = some 0 ∧
          dispatched.2.params[ascii "name"]? = some value ∧
          dispatched.2.query = ∅ := by
  intro claim
  have hit := (claim (ascii "a/b") (by decide)).1
  revert hit
  decide +kernel

end PlusWeb
