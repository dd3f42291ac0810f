import PlusWeb.MountedRouter

/-!
# The four prefix decisions

Whether a request path lies under a prefix is decided in four places: the
wrapper of scoped middleware, the mount test of the server, the mount test of
a router, and `Router::matches`.  The path below the prefix is computed in
three.  Two of the decisions look at a segment boundary and two only compare
bytes, and the three relative paths treat the root prefix differently, so
they agree exactly where no path starts with the prefix inside a segment and
nothing follows a root prefix.
-/

namespace PlusWeb

/-! ## The helpers of `Router` -/

/-- `Router::pathStartsWith`. -/
def Router.pathStartsWith (fullPath start : StdString) : Bool :=
  if start = ascii "/" ∨ start = [] then true
  else
    StdString.startsWith fullPath start ∧
      (fullPath.length = start.length ∨
        fullPath[start.length]? = some slash)

/-- `Router::matches`. -/
def Router.matches (router : Router) (path : StdString) : Bool :=
  if router.mountPath = [] then true
  else Router.pathStartsWith path router.mountPath

/-- `Router::getRelativePath`. -/
def Router.getRelativePath (router : Router) (fullPath : StdString) : StdString :=
  if router.mountPath = [] then fullPath
  else if Router.pathStartsWith fullPath router.mountPath then
    let relative := StdString.substr fullPath router.mountPath.length
    if relative = [] then ascii "/" else relative
  else fullPath

/-! ## Normal form -/

/--
A prefix in normal form: it begins with a slash, and it ends with one
only if it is the root.
-/
structure NormalPrefix (path : StdString) : Prop where
  origin : path.head? = some slash
  untrailed : path = ascii "/" ∨ path.getLast? ≠ some slash

/-- The normal forms are what `Router::normalizePath` leaves alone. -/
theorem normalizePath_eq_self_iff (path : StdString) :
    normalizePath path = path ↔ NormalPrefix path := by
  constructor
  · intro same
    have origin : path.head? = some slash := by
      rw [← same]
      exact normalizePath_origin path
    refine ⟨origin, ?_⟩
    by_cases root : path = ascii "/"
    · exact .inl root
    · right
      intro trailing
      have nonempty : path ≠ [] := by
        rintro rfl
        cases origin
      have long : path.length > 1 := by
        rcases path with _ | ⟨head, _ | ⟨second, rest⟩⟩
        · exact absurd rfl nonempty
        · obtain rfl : head = slash := by simpa using origin
          exact absurd rfl root
        · simp
      have shorter : normalizePath path = path.dropLast := by
        simp [normalizePath, root, nonempty, origin, trailing, long]
      have lengths := congrArg List.length (shorter.symm.trans same)
      rw [List.length_dropLast] at lengths
      omega
  · rintro ⟨origin, root | untrailed⟩
    · rw [root]
      decide
    · have nonempty : path ≠ [] := by
        rintro rfl
        cases origin
      by_cases root : path = ascii "/"
      · rw [root]
        decide
      · simp [normalizePath, root, nonempty, origin, untrailed]

/-! ## Agreement -/

/--
The path is the prefix or extends it at a segment boundary; everything
extends the root.
-/
def AtBoundary (start path : StdString) : Prop :=
  start = ascii "/" ∨ path = start ∨ start ++ ascii "/" <+: path

/--
The four decisions on a prefix are whether the path continues at a
boundary, and where they accept, the three relative paths are one.
-/
structure PrefixesAgree
    (router : Router) (start path : StdString) : Prop where
  wrapper : StdString.startsWith path start = true ↔ AtBoundary start path
  serverMount :
    underMount (normalizePath start) path = true ↔ AtBoundary start path
  subRouter :
    StdString.startsWith path (normalizePath start) = true ↔
      AtBoundary start path
  matching : router.matches path = true ↔ AtBoundary start path
  below : AtBoundary start path →
    mountedPath (normalizePath start) path =
        relativePath (normalizePath start) path ∧
      router.getRelativePath path =
        relativePath (normalizePath start) path ∧
      (relativePath (normalizePath start) path).head? = some slash

/--
A path that starts with the prefix continues at a boundary, and a root
prefix has nothing behind it.
-/
def PrefixesClear (start path : StdString) : Prop :=
  if start = ascii "/" then path = ascii "/"
  else start <+: path → AtBoundary start path

/-! ## The decisions one by one -/

/-- `Router::pathStartsWith` is the mount test of the server. -/
theorem pathStartsWith_eq_underMount
    {start : StdString} (nonempty : start ≠ []) (path : StdString) :
    Router.pathStartsWith path start = underMount start path := by
  by_cases root : start = ascii "/"
  · simp [Router.pathStartsWith, underMount, root]
  · simp [Router.pathStartsWith, underMount, root, nonempty]

theorem atBoundary_iff
    {start : StdString} (proper : start ≠ ascii "/") (path : StdString) :
    AtBoundary start path ↔
      ∃ rest, path = start ++ rest ∧
        (rest = [] ∨ rest.head? = some slash) := by
  constructor
  · rintro (root | same | ⟨rest, rfl⟩)
    · exact absurd root proper
    · exact ⟨[], by simpa using same, .inl rfl⟩
    · refine ⟨slash :: rest, ?_, .inr rfl⟩
      simp [ascii_slash]
  · rintro ⟨rest, rfl, empty | next⟩
    · right
      left
      simp [empty]
    · right
      right
      cases rest with
      | nil => cases next
      | cons head rest =>
          obtain rfl : head = slash := by simpa using next
          exact ⟨rest, by simp [ascii_slash]⟩

/-- Where a path continues at a boundary it starts with the prefix. -/
theorem AtBoundary.starts
    {start path : StdString} (boundary : AtBoundary start path)
    (origin : path.head? = some slash) : start <+: path := by
  rcases boundary with root | same | further
  · cases path with
    | nil => cases origin
    | cons head path =>
        obtain rfl : head = slash := by simpa using origin
        rw [root, ascii_slash]
        exact ⟨path, rfl⟩
  · rw [same]
  · exact (List.prefix_append start (ascii "/")).trans further

/-- The mount test of the server is the boundary test, at the root too. -/
theorem underMount_iff_atBoundary (start path : StdString) :
    underMount start path = true ↔ AtBoundary start path := by
  by_cases root : start = ascii "/"
  · simp [underMount, AtBoundary, root]
  · rw [underMount_iff root, atBoundary_iff root]

/-! ## The relative paths -/

section Below

variable {router : Router} {start path : StdString}

/-- Below a proper prefix the three relative paths are one. -/
theorem below_proper
    (mounted : router.mountPath = start) (nonempty : start ≠ [])
    (proper : start ≠ ascii "/") (boundary : AtBoundary start path) :
    mountedPath start path = relativePath start path ∧
      router.getRelativePath path = relativePath start path := by
  have accepted : Router.pathStartsWith path start = true := by
    rw [pathStartsWith_eq_underMount nonempty]
    exact (underMount_iff_atBoundary start path).mpr boundary
  rcases (atBoundary_iff proper path).mp boundary with ⟨rest, rfl, next⟩
  constructor
  · exact if_neg proper
  · have stripped :
        StdString.substr (start ++ rest) start.length = rest := by
      simp [StdString.substr]
    simp only [Router.getRelativePath, mounted, nonempty, if_false,
      accepted, if_true, stripped, relativePath_append]
    rcases next with empty | slashed
    · simp [empty]
    · have filled : rest ≠ [] := by
        rintro rfl
        cases slashed
      simp [filled, slashed]

/--
At the root they are one only for the root path: the server keeps the
path, `Router::getRelativePath` takes its slash away.
-/
theorem below_root_iff
    (mounted : router.mountPath = ascii "/")
    (origin : path.head? = some slash) :
    (mountedPath (ascii "/") path = relativePath (ascii "/") path ∧
        router.getRelativePath path = relativePath (ascii "/") path) ↔
      path = ascii "/" := by
  constructor
  · rintro ⟨kept, stripped⟩
    cases path with
    | nil => cases origin
    | cons head rest =>
        obtain rfl : head = slash := by simpa using origin
        have whole : mountedPath (ascii "/") (slash :: rest) = slash :: rest :=
          if_pos rfl
        have cut :
            router.getRelativePath (slash :: rest) =
              if rest = [] then ascii "/" else rest := by
          simp [Router.getRelativePath, Router.pathStartsWith, mounted,
            ascii_slash, StdString.substr]
        have same := (stripped.trans kept.symm).symm
        rw [whole, cut] at same
        split at same
        · exact same
        · exact absurd same (List.cons_ne_self slash rest)
  · rintro rfl
    simp [mountedPath, relativePath, Router.getRelativePath,
      Router.pathStartsWith, mounted, ascii_slash, StdString.substr]

end Below

/-! ## When they agree -/

/--
For a prefix in normal form and a path that begins with a slash, the four
decisions and the three relative paths agree exactly if the path does not
start with the prefix inside a segment, and, at the root, is the root.
-/
theorem prefixes_agree_iff
    {router : Router} {start path : StdString}
    (mounted : router.mountPath = start) (normal : NormalPrefix start)
    (origin : path.head? = some slash) :
    PrefixesAgree router start path ↔ PrefixesClear start path := by
  have same : normalizePath start = start :=
    (normalizePath_eq_self_iff start).mpr normal
  have nonempty : start ≠ [] := by
    rintro rfl
    cases normal.origin
  constructor
  · intro agree
    unfold PrefixesClear
    split
    · next root =>
      rcases agree.below (.inl root) with ⟨kept, stripped, -⟩
      rw [same, root] at kept stripped
      exact
        (below_root_iff (mounted.trans root) origin).mp ⟨kept, stripped⟩
    · next proper =>
      intro starts
      apply agree.wrapper.mp
      exact (StdString.startsWith_iff path start).mpr starts
  · intro clear
    have bytes :
        StdString.startsWith path start = true ↔ AtBoundary start path := by
      rw [StdString.startsWith_iff]
      constructor
      · intro starts
        by_cases root : start = ascii "/"
        · exact .inl root
        · exact (if_neg root).mp clear starts
      · intro boundary
        exact boundary.starts origin
    constructor
    case wrapper => exact bytes
    case serverMount =>
      rw [same]
      exact underMount_iff_atBoundary start path
    case subRouter =>
      rw [same]
      exact bytes
    case matching =>
      rw [Router.matches, mounted, if_neg nonempty,
        pathStartsWith_eq_underMount nonempty]
      exact underMount_iff_atBoundary start path
    case below =>
      intro boundary
      rw [same]
      have slashed := relativePath_origin start path
      by_cases root : start = ascii "/"
      · have here : path = ascii "/" := by
          rw [PrefixesClear, if_pos root] at clear
          exact clear
        rw [root] at slashed ⊢
        rcases
          (below_root_iff (mounted.trans root) origin).mpr here with
          ⟨kept, stripped⟩
        exact ⟨kept, stripped, slashed⟩
      · rcases below_proper mounted nonempty root boundary with
          ⟨kept, stripped⟩
        exact ⟨kept, stripped, slashed⟩

/-- A router mounted at `/api` and a request below it. -/
theorem prefixes_agree_iff_users :
    PrefixesAgree { Router.new with mountPath := ascii "/api" }
      (ascii "/api") (ascii "/api/users") := by
  apply
    (prefixes_agree_iff rfl ⟨by decide, .inr (by decide)⟩ (by decide)).mpr
  rw [PrefixesClear, if_neg (by decide)]
  exact fun _ => .inr (.inr (by decide))

/-- `/apiary` starts with `/api`, and only two of the decisions say no. -/
theorem prefixes_disagree_apiary :
    ¬ ∀ (router : Router) (start path : StdString),
      router.mountPath = start → NormalPrefix start →
        path.head? = some slash → PrefixesAgree router start path := by
  intro agree
  have here :=
    agree { Router.new with mountPath := ascii "/api" } (ascii "/api")
      (ascii "/apiary") rfl ⟨by decide, .inr (by decide)⟩ (by decide)
  have bytes :
      StdString.startsWith (ascii "/apiary") (ascii "/api") = true := by
    decide
  have mount : underMount (ascii "/api") (ascii "/apiary") = false := by
    decide
  have boundary := here.wrapper.mp bytes
  rw [← underMount_iff_atBoundary, mount] at boundary
  cases boundary

end PlusWeb
