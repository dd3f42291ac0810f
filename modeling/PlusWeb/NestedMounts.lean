import PlusWeb.MountedRouter
import PlusWeb.RouterGuards

/-!
# Handlers below nested mounts

A handler of a router that is reached through mounts ought to run only below
their prefixes, segment by segment.  `HttpServer::use(path, router)` demands
that the path goes on at a slash; `Router::use(path, subRouter)` strips any
byte prefix and puts a slash in front of what is left.

So the segments of the mounts are a front part of those of the path exactly
if every mount is cut off between two segments.
-/

namespace PlusWeb

open ListSearch WildcardTable

variable {J A κ : Type}

/-! ## The segments of joined texts -/

/-- The last piece of the text is not closed by a separator. -/
def endsInPiece (separator : UInt8) (text : StdString) : Bool :=
  text.getLast?.any (· ≠ separator)

/-- The text begins with a piece. -/
def startsPiece (separator : UInt8) (text : StdString) : Bool :=
  text.head?.any (· ≠ separator)

theorem pieces_separator_cons (separator : UInt8) (text : StdString) :
    Utils.pieces separator (separator :: text) =
      Utils.pieces separator text := by
  have cut := Utils.pieces_append_cons separator [] text
  rwa [Utils.pieces_nil, List.nil_append, List.nil_append] at cut

theorem length_pieces_cons
    {separator byte : UInt8} (other : byte ≠ separator)
    (text : StdString) :
    (Utils.pieces separator (byte :: text)).length =
      (Utils.pieces separator text).length +
        if startsPiece separator text then 0 else 1 := by
  have front :
      before separator (byte :: text) = byte :: before separator text := by
    simp [before, other]
  have back :
      after separator (byte :: text) = after separator text := by
    simp [after, other]
  rw [pieces_eq separator (byte :: text), pieces_eq separator text, front,
    back]
  cases text with
  | nil => simp [startsPiece, before]
  | cons next text =>
      by_cases cut : next = separator
      · simp [startsPiece, before, cut]
      · simp [startsPiece, before, cut]

/-- Where two texts are joined inside a piece, one piece is lost. -/
theorem length_pieces_append
    (separator : UInt8) (front back : StdString) :
    (Utils.pieces separator (front ++ back)).length +
        (if endsInPiece separator front && startsPiece separator back then 1
          else 0) =
      (Utils.pieces separator front).length +
        (Utils.pieces separator back).length := by
  induction front with
  | nil => simp [endsInPiece]
  | cons byte front induction =>
      cases front with
      | nil =>
          rw [List.singleton_append]
          by_cases cut : byte = separator
          · simp [cut, pieces_separator_cons, endsInPiece]
          · rw [length_pieces_cons cut, length_pieces_cons cut]
            cases opens : startsPiece separator back
            · simp [endsInPiece, startsPiece, Nat.add_comm]
            · simp [endsInPiece, startsPiece, cut, Nat.add_comm]
      | cons next front =>
          have ends :
              endsInPiece separator (byte :: next :: front) =
                endsInPiece separator (next :: front) := by
            simp [endsInPiece]
          rw [ends]
          by_cases cut : byte = separator
          · rw [cut, List.cons_append, pieces_separator_cons,
              pieces_separator_cons]
            exact induction
          · have opens :
                startsPiece separator ((next :: front) ++ back) =
                  startsPiece separator (next :: front) := rfl
            rw [List.cons_append, length_pieces_cons cut,
              length_pieces_cons cut, opens]
            omega

/-- Elsewhere the pieces of the two texts follow one another. -/
theorem pieces_append
    {separator : UInt8} {front back : StdString}
    (apart : (endsInPiece separator front && startsPiece separator back) =
      false) :
    Utils.pieces separator (front ++ back) =
      Utils.pieces separator front ++ Utils.pieces separator back := by
  cases back with
  | nil => simp
  | cons byte back =>
      by_cases cut : byte = separator
      · rw [cut, Utils.pieces_append_cons, pieces_separator_cons]
      · rcases List.eq_nil_or_concat front with rfl | ⟨front, last, rfl⟩
        · simp
        · obtain rfl : last = separator := by
            simpa [endsInPiece, startsPiece, cut] using apart
          rw [List.concat_eq_append, List.append_assoc,
            List.singleton_append, Utils.pieces_append_cons,
            Utils.pieces_append_cons, Utils.pieces_nil, List.append_nil]

/-! ## Segments of paths and mounts -/

/-- The segments of a path, as `Utils::split` gives them to the trie. -/
def segments (path : StdString) : List StdString :=
  Utils.split path (ascii "/")

theorem segments_eq (path : StdString) :
    segments path = Utils.pieces slash (StdString.cStr path) :=
  split_slash path

theorem cStr_append_of_mem
    {front : StdString} (cut : (0 : UInt8) ∈ front) (back : StdString) :
    StdString.cStr (front ++ back) = StdString.cStr front := by
  rcases List.eq_append_cons_of_mem cut with ⟨before, after, rfl, absent⟩
  rw [List.append_assoc, StdString.cStr_append absent,
    StdString.cStr_append absent]
  rfl

theorem cStr_slash_cons (text : StdString) :
    StdString.cStr (slash :: text) = slash :: StdString.cStr text := by
  simp [StdString.cStr, slash]

theorem segments_slash_append (path : StdString) :
    segments (ascii "/" ++ path) = segments path := by
  have letter : ascii "/" ++ path = slash :: path := rfl
  rw [letter, segments_eq, cStr_slash_cons, pieces_separator_cons,
    segments_eq]

theorem segments_append_slash (path : StdString) :
    segments (path ++ [slash]) = segments path := by
  by_cases cut : (0 : UInt8) ∈ path
  · rw [segments_eq, cStr_append_of_mem cut, segments_eq]
  · have single : StdString.cStr [slash] = [slash] := rfl
    rw [segments_eq, StdString.cStr_append cut, single, segments_eq,
      StdString.cStr_eq_self cut, Utils.pieces_append_cons,
      Utils.pieces_nil, List.append_nil]

/-- Normalisation keeps the segments. -/
theorem segments_normalizePath (path : StdString) :
    segments (normalizePath path) = segments path := by
  have rooted :
      segments
          (if path.head? ≠ some slash then ascii "/" ++ path else path) =
        segments path := by
    split
    · exact segments_slash_append path
    · rfl
  simp only [normalizePath]
  generalize
    (if path.head? ≠ some slash then ascii "/" ++ path else path) =
      normalized at rooted ⊢
  split
  · next root =>
    rcases root with rfl | rfl
    · exact segments_slash_append []
    · rfl
  · split
    · next long =>
      rcases List.getLast?_eq_some_iff.mp long.2 with ⟨front, cut⟩
      rw [← rooted, cut, List.dropLast_concat, segments_append_slash]
    · exact rooted

/--
A mount point is cut off the path between two segments, and the trie
compares what comes after it: a NUL in the mount point hides that.
-/
structure CutsAtSegment (normalizedPath path : StdString) : Prop where
  boundary :
    let rest := StdString.cStr (StdString.substr path normalizedPath.length)
    normalizedPath.getLast? = some slash ∨ rest = [] ∨
      rest.head? = some slash
  visible :
    (0 : UInt8) ∈ normalizedPath →
      segments (mountedPath normalizedPath path) = []

/--
The segments of a path against those of a mount point and of the path
below it.
-/
structure Cut
    (front : List StdString) (path below : StdString)
    (clean : Prop) : Prop where
  bound :
    (segments path).length ≤ front.length + (segments below).length
  exact_ :
    (segments path).length = front.length + (segments below).length ↔ clean
  append : clean → segments path = front ++ segments below

theorem Cut.trans
    {front back : List StdString} {path middle below : StdString}
    {clean clean' : Prop}
    (first : Cut front path middle clean)
    (second : Cut back middle below clean') :
    Cut (front ++ back) path below (clean ∧ clean') := by
  have bound := first.bound
  have bound' := second.bound
  have exact_ := first.exact_
  have exact_' := second.exact_
  constructor
  · rw [List.length_append]
    omega
  · rw [List.length_append, ← exact_, ← exact_']
    omega
  · rintro ⟨one, other⟩
    rw [first.append one, second.append other, List.append_assoc]

theorem cut_refl (path : StdString) : Cut [] path path True := by
  constructor <;> simp

theorem segments_relativePath (normalizedPath rest : StdString) :
    segments (relativePath normalizedPath (normalizedPath ++ rest)) =
      segments rest := by
  rw [relativePath_append]
  split
  · exact segments_slash_append rest
  · rfl

theorem boundary_iff
    {front : StdString} (nonempty : front ≠ []) (back : StdString) :
    (endsInPiece slash front && startsPiece slash back) = false ↔
      front.getLast? = some slash ∨ back = [] ∨
        back.head? = some slash := by
  obtain ⟨start, last, rfl⟩ :=
    (List.eq_nil_or_concat front).resolve_left nonempty
  cases back with
  | nil => simp [startsPiece]
  | cons byte back =>
      simp [endsInPiece, startsPiece, or_iff_not_imp_left]

theorem startsPiece_of_pieces_nil
    {separator : UInt8} {text : StdString}
    (none : Utils.pieces separator text = []) :
    startsPiece separator text = false := by
  cases text with
  | nil => rfl
  | cons byte text =>
      by_cases cut : byte = separator
      · simp [startsPiece, cut]
      · have positive := congrArg List.length none
        rw [pieces_eq] at positive
        simp [before, cut] at positive

/-- A mount point that is a byte prefix of the path. -/
theorem cut_relativePath
    {normalizedPath : StdString} (nonempty : normalizedPath ≠ [])
    (proper : normalizedPath ≠ ascii "/") (rest : StdString) :
    Cut (segments normalizedPath) (normalizedPath ++ rest)
      (relativePath normalizedPath (normalizedPath ++ rest))
      (CutsAtSegment normalizedPath (normalizedPath ++ rest)) := by
  have below := segments_relativePath normalizedPath rest
  have mounted :
      mountedPath normalizedPath (normalizedPath ++ rest) =
        relativePath normalizedPath (normalizedPath ++ rest) :=
    if_neg proper
  have behind :
      StdString.substr (normalizedPath ++ rest) normalizedPath.length =
        rest := by
    simp [StdString.substr]
  by_cases hidden : (0 : UInt8) ∈ normalizedPath
  · have whole :
        segments (normalizedPath ++ rest) = segments normalizedPath := by
      rw [segments_eq, cStr_append_of_mem hidden, segments_eq]
    have clean :
        CutsAtSegment normalizedPath (normalizedPath ++ rest) ↔
          segments rest = [] := by
      constructor
      · intro cuts
        rw [← below, ← mounted]
        exact cuts.visible hidden
      · intro none
        constructor
        · rw [behind, ← boundary_iff nonempty]
          rw [segments_eq] at none
          rw [startsPiece_of_pieces_nil none, Bool.and_false]
        · intro _
          rw [mounted, below, none]
    rw [clean]
    constructor
    · rw [whole]
      exact Nat.le_add_right _ _
    · rw [whole, below, ← List.length_eq_zero_iff]
      omega
    · intro none
      rw [whole, below, none, List.append_nil]
  · have whole :
        segments (normalizedPath ++ rest) =
          Utils.pieces slash (normalizedPath ++ StdString.cStr rest) := by
      rw [segments_eq, StdString.cStr_append hidden]
    have front :
        segments normalizedPath = Utils.pieces slash normalizedPath := by
      rw [segments_eq, StdString.cStr_eq_self hidden]
    have clean :
        CutsAtSegment normalizedPath (normalizedPath ++ rest) ↔
          (endsInPiece slash normalizedPath &&
            startsPiece slash (StdString.cStr rest)) = false := by
      rw [boundary_iff nonempty]
      constructor
      · intro cuts
        have boundary := cuts.boundary
        rwa [behind] at boundary
      · intro boundary
        constructor
        · rwa [behind]
        · exact fun inside => absurd inside hidden
    have length :=
      length_pieces_append slash normalizedPath (StdString.cStr rest)
    rw [clean]
    constructor
    · rw [whole, below, front, segments_eq rest, ← length]
      exact Nat.le_add_right _ _
    · rw [whole, below, front, segments_eq rest, ← length]
      cases endsInPiece slash normalizedPath &&
          startsPiece slash (StdString.cStr rest) <;> simp
    · intro apart
      rw [whole, below, front, segments_eq rest, pieces_append apart]

theorem normalizePath_ne_nil (path : StdString) : normalizePath path ≠ [] := by
  intro empty
  have origin := normalizePath_origin path
  rw [empty] at origin
  cases origin

theorem segments_root : segments (ascii "/") = [] := by
  have root := segments_slash_append []
  rw [List.append_nil] at root
  rw [root]
  decide

theorem cutsAtSegment_root (path : StdString) :
    CutsAtSegment (ascii "/") path := by
  constructor
  · exact Or.inl rfl
  · intro inside
    simp [ascii] at inside

/-- The mount of a router on the server. -/
theorem cut_underMount
    (mount : StdString) {path : StdString}
    (under : underMount (normalizePath mount) path = true) :
    Cut (segments mount) path (mountedPath (normalizePath mount) path)
      (CutsAtSegment (normalizePath mount) path) := by
  rw [← segments_normalizePath mount]
  by_cases root : normalizePath mount = ascii "/"
  · have here : mountedPath (normalizePath mount) path = path :=
      if_pos root
    rw [here, root, segments_root]
    have clean : CutsAtSegment (ascii "/") path ↔ True :=
      iff_true_intro (cutsAtSegment_root path)
    rw [clean]
    exact cut_refl path
  · rcases (underMount_iff root path).mp under with ⟨rest, rfl, -⟩
    have here :
        mountedPath (normalizePath mount) (normalizePath mount ++ rest) =
          relativePath (normalizePath mount)
            (normalizePath mount ++ rest) := if_neg root
    rw [here]
    exact cut_relativePath (normalizePath_ne_nil mount) root rest

/-- The mount of a sub-router. -/
theorem cut_startsWith
    (mount : StdString) {path : StdString}
    (starts : StdString.startsWith path (normalizePath mount) = true) :
    Cut (segments mount) path (relativePath (normalizePath mount) path)
      (CutsAtSegment (normalizePath mount) path) := by
  rw [← segments_normalizePath mount]
  rcases (StdString.startsWith_iff _ _).mp starts with ⟨rest, rfl⟩
  by_cases root : normalizePath mount = ascii "/"
  · have clean :
        CutsAtSegment (ascii "/") (ascii "/" ++ rest) ↔ True :=
      iff_true_intro (cutsAtSegment_root _)
    have same :
        segments (relativePath (ascii "/") (ascii "/" ++ rest)) =
          segments (ascii "/" ++ rest) := by
      rw [segments_relativePath, segments_slash_append]
    rw [root, segments_root, clean]
    constructor <;> simp [same]
  · exact cut_relativePath (normalizePath_ne_nil mount) root rest

/-! ## Where a request is dispatched -/

/-- Some route of the target with this handler matches the path. -/
def Hits
    (calls : List SetupCall) (target : Target) (label : Nat)
    (path : StdString) : Prop :=
  ∃ verb pattern,
    calls[label]? = some (.route target verb pattern true) ∧
      KeyMatches (segments pattern) (segments path)

/--
Through which mounts a request for `path` gets to a registry, and the
path it has there.
-/
inductive Dispatched (calls : List SetupCall) (path : StdString) :
    List StdString → Target → StdString → Prop where
  | server : Dispatched calls path [] .server path
  | router {mount : StdString} {id : Nat} :
      .mount .server mount id ∈ calls →
      underMount (normalizePath mount) path = true →
      Dispatched calls path [mount] (.router id)
        (mountedPath (normalizePath mount) path)
  | subRouter {mount inner : StdString} {parent id : Nat} :
      .mount .server mount parent ∈ calls →
      underMount (normalizePath mount) path = true →
      .mount (.router parent) inner id ∈ calls →
      StdString.startsWith (mountedPath (normalizePath mount) path)
        (normalizePath inner) = true →
      Dispatched calls path [mount, inner] (.router id)
        (relativePath (normalizePath inner)
          (mountedPath (normalizePath mount) path))

theorem hits_of_answer
    {calls : List SetupCall} {target : Target} {label : Nat}
    {req : HttpRequest J} (token : MethodToken req.method)
    (hit : (answer (registrationsOn target calls) req).1 = some label) :
    Hits calls target label req.path := by
  unfold answer at hit
  dsimp only at hit
  split at hit
  · next shape handler found =>
    obtain ⟨registration, member, value, sameHead, -, matching⟩ :=
      matches_of_lookup found
    obtain rfl : handler = label := by simpa using hit
    rcases mem_registrationsOn member value with ⟨verb, placed, -⟩
    obtain ⟨-, front⟩ :=
      headSegment_inj (registrationsOn_token member) token sameHead
    refine ⟨verb, registration.path, placed, ?_⟩
    rw [segments, segments, split_path, split_path, front]
    apply List.rel_append _ matching
    split
    · exact .cons (Or.inl rfl) .nil
    · exact .nil
  · cases hit

/-- The exchange has this method and path. -/
def Exchange.At (method path : StdString) (exchange : Exchange J A) : Prop :=
  exchange.req.method = method ∧ exchange.req.path = path

/--
The middleware leaves method and path alone and calls `next` at most
once.
-/
def Callbacks.KeepsPath (callbacks : Callbacks J A) (label : Nat) : Prop :=
  (callbacks.middleware label).AtMostOnce ∧
    (callbacks.middleware label).Respects fun exchange after =>
      after.req.method = exchange.req.method ∧
        after.req.path = exchange.req.path

/-- The call registers middleware with `RoutingBase::use`. -/
def SetupCall.IsMiddleware : SetupCall → Prop
  | .use _ => True
  | .useAt _ _ => True
  | _ => False

/-- The callback of a middleware. -/
def BaseMiddleware.label : BaseMiddleware → Nat
  | .plain label => label
  | .pathWrapper _ label => label

/--
All middleware of the program leaves method and path alone and calls
`next` at most once.
-/
def Callbacks.KeepPaths
    (callbacks : Callbacks J A) (calls : List SetupCall) : Prop :=
  ∀ label call, calls[label]? = some call → call.IsMiddleware →
    callbacks.KeepsPath label

/-- An event that is not a handler, or a handler the request gets to. -/
def Routed (calls : List SetupCall) (path : StdString) (event : Event) :
    Prop :=
  ∀ label, event = .handled label →
    ∃ chain target below,
      Dispatched calls path chain target below ∧
        Hits calls target label below

section Runs

variable {callbacks : Callbacks J A} {allowed : Event → Prop}
  {method path : StdString} {next : Run J A}

theorem Callbacks.emitsFrom_enter
    {label : Nat} (keeps : callbacks.KeepsPath label)
    (entered : allowed (.entered label)) (nexted : allowed (.nexted label))
    (nextEmits : next.EmitsFrom (Exchange.At method path) allowed) :
    Action.EmitsFrom (Exchange.At method path) allowed
      (callbacks.enter label next) := by
  intro traced here
  rcases keeps with ⟨once, respects⟩
  have kept (exchange after : Exchange J A)
      (same : after.req.method = exchange.req.method ∧
        after.req.path = exchange.req.path)
      (at_ : exchange.At method path) : after.At method path :=
    ⟨same.1.trans at_.1, same.2.trans at_.2⟩
  have ran :=
    Script.emitsFrom_run kept nexted nextEmits once respects
      (traced.log (.entered label)) here
  exact
    ((extends_refl allowed traced.trace).append_singleton entered).trans ran

theorem BaseMiddleware.emitsFrom_call
    {mw : BaseMiddleware} (keeps : callbacks.KeepsPath mw.label)
    (others : ∀ event, (∀ label, event ≠ .handled label) → allowed event)
    (nextEmits : next.EmitsFrom (Exchange.At method path) allowed) :
    Action.EmitsFrom (Exchange.At method path) allowed
      (mw.call callbacks next) := by
  cases mw with
  | plain label =>
      exact
        Callbacks.emitsFrom_enter keeps (others _ (by simp))
          (others _ (by simp)) nextEmits
  | pathWrapper scope label =>
      intro traced here
      have tested :=
        (extends_refl allowed traced.trace).append_singleton
          (others (.tested label traced.state.req.path) (by simp))
      simp only [BaseMiddleware.call]
      split
      · exact
          tested.trans
            (Callbacks.emitsFrom_enter keeps (others _ (by simp))
              (others _ (by simp)) nextEmits _ here)
      · exact tested.trans (nextEmits _ here)

variable {calls : List SetupCall}

theorem RouterMiddleware.emitsFrom_call
    {mw : RouterMiddleware} {id : Nat}
    (others : ∀ event, (∀ label, event ≠ .handled label) → allowed event)
    (token : MethodToken method)
    (element :
      (∃ base, mw = .base base ∧ callbacks.KeepsPath base.label) ∨
        mw = .routeHandler id ∨ ∃ inner sub, .mount (.router id) inner sub ∈ calls ∧
          mw = .subRouter (normalizePath inner) sub)
    (own : ∀ label, Hits calls (.router id) label path →
      allowed (.handled label))
    (sub : ∀ inner sub label, .mount (.router id) inner sub ∈ calls →
      StdString.startsWith path (normalizePath inner) = true →
      Hits calls (.router sub) label
        (relativePath (normalizePath inner) path) →
      allowed (.handled label))
    (nextEmits : next.EmitsFrom (Exchange.At method path) allowed) :
    Action.EmitsFrom (Exchange.At method path) allowed
      (mw.call callbacks (Setup.build calls).routers next) := by
  rcases element with ⟨base, rfl, keeps⟩ | rfl |
    ⟨inner, other, mounted, rfl⟩
  · exact BaseMiddleware.emitsFrom_call keeps others nextEmits
  · intro traced here
    rcases
      RouterMiddleware.call_routeHandler_cases callbacks
        (Setup.build calls).routers id next traced with
      ⟨label, req, found, handled⟩ | ⟨-, missed⟩
    · rw [handled]
      apply (extends_refl allowed traced.trace).append_singleton
      apply own
      rw [router_getHandler calls id (here.1 ▸ token)] at found
      have hit := hits_of_answer (here.1 ▸ token) found
      rwa [here.2] at hit
    · rw [missed]
      exact nextEmits traced here
  · intro traced here
    rcases
      RouterMiddleware.call_subRouter_cases callbacks
        (Setup.build calls).routers other next traced
        (normalizePath inner) with
      ⟨starts, label, req, found, handled⟩ | ⟨-, missed⟩
    · rw [here.2] at starts found
      rw [handled, leaveSubRouter_trace]
      apply (extends_refl allowed traced.trace).append_singleton
      apply sub inner other label mounted starts
      let asked : HttpRequest J :=
        { traced.state.req with
          path := relativePath (normalizePath inner) path }
      have at_ : MethodToken asked.method := here.1 ▸ token
      have answered :=
        (congrArg Prod.fst (router_getHandler calls other at_)).symm.trans
          found
      exact hits_of_answer at_ answered
    · rw [missed]
      exact nextEmits traced here

theorem routed_of_hit
    {chain : List StdString} {target : Target} {below : StdString}
    (dispatched : Dispatched calls path chain target below) {label : Nat}
    (hit : Hits calls target label below) :
    Routed calls path (.handled label) := by
  rintro _ ⟨⟩
  exact ⟨chain, target, below, dispatched, hit⟩

theorem routed_of_other
    {event : Event} (other : ∀ label, event ≠ .handled label) :
    Routed calls path event :=
  fun label handled => absurd handled (other label)

/-- Where the elements of a mounted router come from. -/
theorem element_of_getMiddlewares
    (keeps : callbacks.KeepPaths calls)
    {position id : Nat} {mw : RouterMiddleware}
    (member : mw ∈
      ((Setup.build (calls.take position)).routers id).getMiddlewares id) :
    (∃ base, mw = .base base ∧ callbacks.KeepsPath base.label) ∨
      mw = .routeHandler id ∨ ∃ inner sub, .mount (.router id) inner sub ∈ calls ∧
        mw = .subRouter (normalizePath inner) sub := by
  rcases List.mem_append.mp member with queued | last
  · obtain ⟨label, call, at_, element⟩ :=
      Setup.mem_routers_queue_iff.mp queued
    have inside : call ∈ calls :=
      List.mem_of_mem_take (List.mem_of_getElem? at_)
    have placed : calls[label]? = some call := by
      rw [List.getElem?_take] at at_
      split at at_
      · exact at_
      · cases at_
    cases call with
    | use target =>
        cases target with
        | server => cases element
        | router target =>
            simp only [Setup.routerElement] at element
            split at element
            · exact
                Or.inl
                  ⟨_, (Option.some.inj element).symm,
                    keeps label _ placed trivial⟩
            · cases element
    | useAt target scope =>
        cases target with
        | server => cases element
        | router target =>
            simp only [Setup.routerElement] at element
            split at element
            · exact
                Or.inl
                  ⟨_, (Option.some.inj element).symm,
                    keeps label _ placed trivial⟩
            · cases element
    | route target verb pattern present => cases element
    | mount target inner sub =>
        cases target with
        | server => cases element
        | router target =>
            simp only [Setup.routerElement] at element
            split at element
            · next same =>
              subst same
              exact
                Or.inr (Or.inr
                  ⟨inner, sub, inside, (Option.some.inj element).symm⟩)
            · cases element
  · exact Or.inr (Or.inl (List.mem_singleton.mp last))

theorem ServerMiddleware.emitsFrom_call
    (keeps : callbacks.KeepPaths calls) {mw : ServerMiddleware}
    (member : mw ∈ (Setup.build calls).server.queue)
    (token : MethodToken method)
    (nextEmits :
      next.EmitsFrom (Exchange.At method path) (Routed calls path)) :
    Action.EmitsFrom (Exchange.At method path) (Routed calls path)
      (mw.call callbacks (Setup.build calls).routers next) := by
  cases mw with
  | base mw =>
      obtain ⟨label, call, at_, element⟩ :=
        Setup.mem_server_queue_iff.mp member
      have own : callbacks.KeepsPath mw.label := by
        cases call with
        | use target =>
            cases target <;> cases element
            exact keeps label _ at_ trivial
        | useAt target scope =>
            cases target <;> cases element
            exact keeps label _ at_ trivial
        | route target verb pattern present => cases element
        | mount target mount id => cases target <;> cases element
      exact
        BaseMiddleware.emitsFrom_call own (fun _ => routed_of_other)
          nextEmits
  | mounted normalizedPath routerMws =>
      obtain ⟨position, call, at_, element⟩ :=
        Setup.mem_server_queue_iff.mp member
      obtain ⟨mount, id, rfl, rfl, rfl⟩ :
          ∃ mount id, call = .mount .server mount id ∧
            normalizePath mount = normalizedPath ∧
            ((Setup.build (calls.take position)).routers id).getMiddlewares
              id = routerMws := by
        cases call with
        | use target => cases target <;> cases element
        | useAt target scope => cases target <;> cases element
        | route target verb pattern present => cases element
        | mount target mount id =>
            cases target with
            | server =>
                obtain ⟨sameMount, sameMws⟩ :=
                  ServerMiddleware.mounted.inj (Option.some.inj element)
                exact ⟨mount, id, rfl, sameMount, sameMws⟩
            | router parent => cases element
      have mounted := List.mem_of_getElem? at_
      intro traced here
      simp only [ServerMiddleware.call]
      split
      case isFalse => exact nextEmits traced here
      case isTrue under =>
        rw [here.2] at under ⊢
        have dispatched := Dispatched.router mounted under
        have chain :
            Action.EmitsFrom
              (Exchange.At method (mountedPath (normalizePath mount) path))
              (Routed calls path)
              (executeMiddlewareChain
                (RouterMiddleware.call callbacks
                  (Setup.build calls).routers)
                (((Setup.build (calls.take position)).routers
                  id).getMiddlewares id)
                fun traced =>
                  next (traced.update (Exchange.setPath path))) := by
          apply chain_rule
          · intro mw inside next nextEmits
            exact
              RouterMiddleware.emitsFrom_call
                (fun _ => routed_of_other) token
                (element_of_getMiddlewares keeps inside)
                (fun label => routed_of_hit dispatched)
                (fun inner sub label innerMounted starts =>
                  routed_of_hit
                    (.subRouter mounted under innerMounted starts))
                nextEmits
          · intro inside at_
            exact
              nextEmits (inside.update (Exchange.setPath path))
                ⟨at_.1, rfl⟩
        exact
          chain
            (traced.update
              (Exchange.setPath (mountedPath (normalizePath mount) path)))
            ⟨here.1, rfl⟩

variable [Json J]

theorem emitsFrom_runRoute
    (token : MethodToken method) :
    Action.EmitsFrom (Exchange.At method path) (Routed calls path)
      (runRoute (Setup.build calls).server callbacks) := by
  intro traced here
  simp only [runRoute]
  split
  case h_1 label req found =>
    have hit := congrArg Prod.fst found
    rw [server_getHandler calls (here.1 ▸ token)] at hit
    have hits := hits_of_answer (here.1 ▸ token) hit
    rw [here.2] at hits
    exact
      (extends_refl _ traced.trace).append_singleton
        (routed_of_hit .server hits)
  case h_2 => exact extends_refl _ traced.trace

/-- Every handler of a run is one the request gets to. -/
theorem dispatched_of_handled
    (keeps : callbacks.KeepPaths calls) {exchange : Exchange J A}
    (token : MethodToken exchange.req.method) {label : Nat}
    (ran : .handled label ∈
      (Setup.build calls).events callbacks exchange) :
    ∃ chain target below,
      Dispatched calls exchange.req.path chain target below ∧
        Hits calls target label below := by
  have chain :
      Action.EmitsFrom
        (Exchange.At exchange.req.method exchange.req.path)
        (Routed calls exchange.req.path)
        ((Setup.build calls).runChain callbacks) := by
    apply chain_rule
    · intro mw member next nextEmits
      exact ServerMiddleware.emitsFrom_call keeps member token nextEmits
    · exact emitsFrom_runRoute token
  have emitted := chain ⟨exchange, []⟩ ⟨rfl, rfl⟩
  rcases emitted.mem ran with none | routed
  · cases none
  · exact routed label rfl

end Runs

/-! ## Trees of routers -/

/-- The object a chain of mounts leads to. -/
inductive Reaches (calls : List SetupCall) :
    List StdString → Target → Prop where
  | server : Reaches calls [] .server
  | mount {chain : List StdString} {parent : Target} {mount : StdString}
      {id : Nat} :
      Reaches calls chain parent → .mount parent mount id ∈ calls →
      Reaches calls (chain ++ [mount]) (.router id)

/-- Each router is mounted at most once. -/
def MountedOnce (calls : List SetupCall) : Prop :=
  (calls.filterMap SetupCall.mounts).Nodup

instance (calls : List SetupCall) : Decidable (MountedOnce calls) :=
  inferInstanceAs (Decidable (calls.filterMap SetupCall.mounts).Nodup)

theorem MountedOnce.eq
    {calls : List SetupCall} (once : MountedOnce calls)
    {id : Nat} {target target' : Target} {path path' : StdString}
    (first : .mount target path id ∈ calls)
    (second : .mount target' path' id ∈ calls) :
    target = target' ∧ path = path' := by
  by_contra different
  have symmetric :
      Std.Symm fun call call' : SetupCall =>
        ∀ id, call.mounts = some id → ∀ id', call'.mounts = some id' →
          id ≠ id' :=
    ⟨fun _ _ apart id own id' own' => (apart id' own' id own).symm⟩
  have apart :=
    (List.pairwise_filterMap.mp once).forall first second
      (fun same => different (by simpa using same))
  exact apart id rfl id rfl rfl

theorem Reaches.unique
    {calls : List SetupCall} (once : MountedOnce calls)
    {target : Target} {chain chain' : List StdString}
    (first : Reaches calls chain target)
    (second : Reaches calls chain' target) : chain = chain' := by
  induction first generalizing chain' with
  | server =>
      cases second
      rfl
  | mount reached mounted induction =>
      cases second with
      | mount reached' mounted' =>
          rcases once.eq mounted mounted' with ⟨rfl, rfl⟩
          rw [induction reached']

theorem Dispatched.reaches
    {calls : List SetupCall} {path below : StdString}
    {chain : List StdString} {target : Target}
    (dispatched : Dispatched calls path chain target below) :
    Reaches calls chain target := by
  cases dispatched with
  | server => exact .server
  | router mounted => exact .mount .server mounted
  | subRouter mounted under inner =>
      exact .mount (.mount .server mounted) inner

/--
Each mount point of the chain, stripped off in turn, is cut off between
two segments.
-/
def StripsAtSegments : List StdString → StdString → Prop
  | [], _ => True
  | mount :: chain, path =>
      CutsAtSegment (normalizePath mount) path ∧
        StripsAtSegments chain (mountedPath (normalizePath mount) path)

theorem Dispatched.cut
    {calls : List SetupCall} {path below : StdString}
    {chain : List StdString} {target : Target}
    (dispatched : Dispatched calls path chain target below) :
    Cut (chain.flatMap segments) path below
      (StripsAtSegments chain path) := by
  cases dispatched with
  | server => exact cut_refl path
  | @router mount id mounted under =>
      have cut := cut_underMount mount under
      simpa [StripsAtSegments] using cut
  | @subRouter mount inner parent id mounted under innerMounted starts =>
      have cut := (cut_underMount mount under).trans
        (cut_startsWith inner starts)
      simpa [StripsAtSegments] using cut

theorem Cut.keyMatches_iff
    {front pattern : List StdString} {path below : StdString}
    {clean : Prop} (cut : Cut front path below clean)
    (matching : KeyMatches pattern (segments below)) :
    KeyMatches (front ++ pattern) (segments path) ↔ clean := by
  constructor
  · intro whole
    have length := whole.length_eq
    rw [List.length_append, matching.length_eq] at length
    exact cut.exact_.mp length.symm
  · intro holds
    rw [cut.append holds]
    apply List.rel_append _ matching
    exact List.forall₂_same.mpr fun segment _ => Or.inl rfl

/--
Nested mounts stay inside their prefix exactly where every mount point is
cut off between two segments.

The chain leads to the object the route is registered on.  The handler has
run; its route is then below the mount points of the chain, segment by
segment, if and only if stripping them cuts between segments only.
-/
theorem nested_mounts_inside
    {calls : List SetupCall} (once : MountedOnce calls)
    [Json J] {callbacks : Callbacks J A}
    (keeps : callbacks.KeepPaths calls)
    {exchange : Exchange J A} (token : MethodToken exchange.req.method)
    {label : Nat} {target : Target} {verb : Verb} {pattern : StdString}
    (registered :
      calls[label]? = some (.route target verb pattern true))
    {chain : List StdString} (reached : Reaches calls chain target)
    (ran : .handled label ∈
      (Setup.build calls).events callbacks exchange) :
    KeyMatches (chain.flatMap segments ++ segments pattern)
        (segments exchange.req.path) ↔
      StripsAtSegments chain exchange.req.path := by
  obtain ⟨chain', target', below, dispatched, verb', pattern', placed,
    matching⟩ := dispatched_of_handled keeps token ran
  rw [registered] at placed
  cases placed
  obtain rfl := reached.unique once dispatched.reaches
  exact dispatched.cut.keyMatches_iff matching

/-- A sub-router mounted inside a router. -/
def nestedCalls : List SetupCall :=
  [.mount (.router 1) (ascii "/api") 2, .mount .server (ascii "/x") 1,
    .route (.router 2) .GET (ascii "/ary") true]

theorem quietCallbacks_keepPaths (calls : List SetupCall) :
    quietCallbacks.KeepPaths calls := by
  intro label call at_ registers
  refine ⟨?_, Script.respects_passThrough _⟩
  intro outcome state
  cases outcome <;> trivial

theorem nestedCalls_reaches :
    Reaches nestedCalls [ascii "/x", ascii "/api"] (.router 2) :=
  @Reaches.mount _ [ascii "/x"] (.router 1) _ 2
    (@Reaches.mount _ [] .server _ 1 .server (by decide)) (by decide)

theorem nested_mounts_inside_proper :
    KeyMatches
        ([ascii "/x", ascii "/api"].flatMap segments ++
          segments (ascii "/ary"))
        (segments (ascii "/x/api/ary")) ↔
      StripsAtSegments [ascii "/x", ascii "/api"] (ascii "/x/api/ary") :=
  @nested_mounts_inside FlatJson Unit nestedCalls (by decide) _
    quietCallbacks (quietCallbacks_keepPaths _)
    (Exchange.arriving (ascii "GET") (ascii "/x/api/ary"))
    (@Verb.methods_token .GET _ (by decide)) 2 _ _ _ rfl _
    nestedCalls_reaches (by decide +kernel)

/-- The route `/ary` of a sub-router at `/api` answers `/apiary`. -/
theorem nested_mounts_apiary :
    MountedOnce nestedCalls ∧
      Reaches nestedCalls [ascii "/x", ascii "/api"] (.router 2) ∧
      .handled 2 ∈
        (Setup.build nestedCalls).events quietCallbacks
          (Exchange.arriving (ascii "GET") (ascii "/x/apiary")) ∧
      ¬ KeyMatches
          ([ascii "/x", ascii "/api"].flatMap segments ++
            segments (ascii "/ary"))
          (segments (ascii "/x/apiary")) := by
  refine ⟨by decide, nestedCalls_reaches, by decide +kernel, ?_⟩
  intro matching
  have length := matching.length_eq
  simp only [List.flatMap_cons, List.flatMap_nil, segments_eq] at length
  exact absurd length (by decide)

end PlusWeb
