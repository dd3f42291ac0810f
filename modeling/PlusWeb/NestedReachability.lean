import PlusWeb.NestedMounts

/-!
# Which nested routes are reachable

A chain of routers, each mounted inside the one before it, ought to serve the
routes of the last router under the segments of all the mounts.

`normalizePath` strips one slash at the end and leaves the others, while a
canonical path has single slashes only, so a mount point is a byte prefix of
it only if its normal form is canonical too.  And the closure of
`Router::use(path, subRouter)` only looks into the trie of the sub-router, so
nothing below the second router is ever reached.
-/

namespace PlusWeb

open ListSearch WildcardTable

variable {J A κ : Type}

/-! ## Canonical paths -/

/-- Non-empty and without a slash. -/
def ProperSegment (segment : StdString) : Prop :=
  segment ≠ [] ∧ slash ∉ segment

/-- Each segment behind a slash. -/
def slashed (path : List StdString) : StdString :=
  path.flatMap fun segment => slash :: segment

/-- The single-slash join of segments. -/
def canonicalPath (path : List StdString) : StdString :=
  if path = [] then ascii "/" else slashed path

@[simp]
theorem slashed_nil : slashed [] = [] := rfl

theorem slashed_cons (segment : StdString) (path : List StdString) :
    slashed (segment :: path) = slash :: (segment ++ slashed path) := by
  simp [slashed]

theorem slashed_append (front back : List StdString) :
    slashed (front ++ back) = slashed front ++ slashed back :=
  List.flatMap_append

theorem startsPiece_slashed (path : List StdString) :
    startsPiece slash (slashed path) = false := by
  cases path with
  | nil => rfl
  | cons segment path => simp [slashed_cons, startsPiece]

theorem pieces_segment_append
    {segment : StdString} (proper : ProperSegment segment)
    {rest : StdString} (apart : startsPiece slash rest = false) :
    Utils.pieces slash (slash :: (segment ++ rest)) =
      segment :: Utils.pieces slash rest := by
  rw [pieces_separator_cons, pieces_append (by rw [apart, Bool.and_false]),
    Utils.pieces_of_notMem proper.2, if_pos proper.1]
  rfl

/--
The pieces of the front part of a single-slash join are its segments,
and it may end in one slash more.
-/
theorem eq_slashed_of_prefix
    {path : List StdString} (proper : ∀ segment ∈ path, ProperSegment segment)
    {front : StdString} (isPrefix_ : front <+: slashed path) :
    front = slashed (Utils.pieces slash front) ∨
      front = slashed (Utils.pieces slash front) ++ [slash] := by
  induction path generalizing front with
  | nil =>
      obtain rfl := List.prefix_nil.mp isPrefix_
      left
      rw [Utils.pieces_nil, slashed_nil]
  | cons segment path induction =>
      have own := proper segment (List.mem_cons_self ..)
      rw [slashed_cons] at isPrefix_
      rcases List.prefix_cons_iff.mp isPrefix_ with rfl | ⟨rest, rfl, inside⟩
      · left
        rw [Utils.pieces_nil, slashed_nil]
      · rcases inside with ⟨tail, whole⟩
        rcases List.append_eq_append_iff.mp whole with
          ⟨missing, cut, -⟩ | ⟨more, cut, continued⟩
        · have free : slash ∉ rest := fun member =>
            own.2 (cut ▸ List.mem_append_left _ member)
          rw [pieces_separator_cons, Utils.pieces_of_notMem free]
          by_cases empty : rest = []
          · right
            simp [empty]
          · left
            simp [empty, slashed_cons]
        · have below := induction
            (fun later member => proper later (List.mem_cons_of_mem _ member))
            ⟨tail, continued.symm⟩
          have apart : startsPiece slash more = false := by
            rcases below with same | same <;> rw [same]
            · exact startsPiece_slashed _
            · cases Utils.pieces slash more with
              | nil => rfl
              | cons first others =>
                  simp [slashed_cons, startsPiece]
          rw [cut, pieces_segment_append own apart, slashed_cons]
          rcases below with same | same
          · left
            rw [← same]
          · right
            rw [List.cons_append, List.append_assoc, ← same]

/-- A mount point that is a front part of a canonical path. -/
theorem eq_canonicalPath_of_prefix
    {path : List StdString} (proper : ∀ segment ∈ path, ProperSegment segment)
    {front : StdString} (origin : front.head? = some slash)
    (isPrefix_ : front <+: canonicalPath path) :
    front = canonicalPath (Utils.pieces slash front) ∨
      Utils.pieces slash front ≠ [] ∧
        front = slashed (Utils.pieces slash front) ++ [slash] := by
  have joined :
      front = slashed (Utils.pieces slash front) ∨
        front = slashed (Utils.pieces slash front) ++ [slash] := by
    by_cases root : path = []
    · rw [canonicalPath, if_pos root, ascii_slash] at isPrefix_
      rcases List.prefix_cons_iff.mp isPrefix_ with rfl | ⟨rest, rfl, inside⟩
      · cases origin
      · obtain rfl := List.prefix_nil.mp inside
        right
        rw [pieces_separator_cons, Utils.pieces_nil]
        rfl
    · rw [canonicalPath, if_neg root] at isPrefix_
      exact eq_slashed_of_prefix proper isPrefix_
  by_cases none : Utils.pieces slash front = []
  · left
    rw [none] at joined ⊢
    rcases joined with empty | root
    · rw [empty] at origin
      cases origin
    · exact root
  · rcases joined with same | longer
    · left
      rwa [canonicalPath, if_neg none]
    · exact Or.inr ⟨none, longer⟩

/-! ## Stripping mount points off a canonical path -/

section Strip

variable {front back : List StdString}

theorem canonicalPath_of_ne_nil (nonempty : front ≠ []) :
    canonicalPath front = slashed front := if_neg nonempty

theorem canonicalPath_append (nonempty : front ≠ []) :
    canonicalPath (front ++ back) = canonicalPath front ++ slashed back := by
  rw [canonicalPath_of_ne_nil nonempty,
    canonicalPath_of_ne_nil (List.append_ne_nil_of_left_ne_nil nonempty _),
    slashed_append]

/-- A join of segments is empty, or a slash and no slash right after. -/
theorem slashed_cases (proper : ∀ segment ∈ back, ProperSegment segment) :
    back = [] ∨ ∃ rest, slashed back = slash :: rest ∧ rest ≠ [] ∧
      rest.head? ≠ some slash := by
  cases back with
  | nil => exact Or.inl rfl
  | cons segment back =>
      rcases proper segment (List.mem_cons_self ..) with ⟨nonempty, free⟩
      refine Or.inr ⟨segment ++ slashed back, slashed_cons .., ?_, ?_⟩
      · exact List.append_ne_nil_of_left_ne_nil nonempty _
      · cases segment with
        | nil => exact absurd rfl nonempty
        | cons byte segment =>
            intro same
            obtain rfl : byte = slash := by simpa using same
            exact free (List.mem_cons_self ..)

theorem canonicalPath_ne_root
    (proper : ∀ segment ∈ front, ProperSegment segment)
    (nonempty : front ≠ []) : canonicalPath front ≠ ascii "/" := by
  rcases (slashed_cases proper).resolve_left nonempty with ⟨rest, join, long, -⟩
  rw [canonicalPath_of_ne_nil nonempty, join, ascii_slash]
  intro same
  exact long (by simpa using same)

/-- Below a mount point in canonical spelling. -/
theorem relativePath_canonical
    (properFront : ∀ segment ∈ front, ProperSegment segment)
    (properBack : ∀ segment ∈ back, ProperSegment segment) :
    canonicalPath front <+: canonicalPath (front ++ back) ∧
      relativePath (canonicalPath front) (canonicalPath (front ++ back)) =
        canonicalPath back := by
  by_cases root : front = []
  · subst root
    rcases slashed_cases properBack with rfl | ⟨rest, join, long, other⟩
    · exact ⟨List.prefix_refl _, by decide⟩
    · have path : canonicalPath ([] ++ back) = ascii "/" ++ rest := by
        rw [List.nil_append, canonicalPath, if_neg, join, ascii_slash]
        · rfl
        · rintro rfl
          cases join
      have point : canonicalPath [] = ascii "/" := rfl
      rw [path, point]
      refine ⟨List.prefix_append _ _, ?_⟩
      rw [relativePath_append, if_pos (Or.inr other), ← path,
        List.nil_append]
  · rw [canonicalPath_append root]
    refine ⟨List.prefix_append _ _, ?_⟩
    rw [relativePath_append]
    rcases slashed_cases properBack with rfl | ⟨rest, join, -, -⟩
    · rfl
    · have some_ : back ≠ [] := by
        rintro rfl
        cases join
      rw [join, if_neg (by simp), ← join, canonicalPath_of_ne_nil some_]

/-- The mount of a router in canonical spelling. -/
theorem underMount_canonical
    (properFront : ∀ segment ∈ front, ProperSegment segment)
    (properBack : ∀ segment ∈ back, ProperSegment segment) :
    underMount (canonicalPath front) (canonicalPath (front ++ back)) =
        true ∧
      mountedPath (canonicalPath front) (canonicalPath (front ++ back)) =
        canonicalPath back := by
  by_cases root : front = []
  · subst root
    exact ⟨by simp [underMount, canonicalPath], if_pos rfl⟩
  · have notRoot := canonicalPath_ne_root properFront root
    constructor
    · rw [underMount_iff notRoot]
      refine ⟨slashed back, canonicalPath_append root, ?_⟩
      rcases slashed_cases properBack with rfl | ⟨rest, join, -, -⟩
      · exact Or.inl rfl
      · exact Or.inr (by rw [join]; rfl)
    · rw [mountedPath, if_neg notRoot]
      exact (relativePath_canonical properFront properBack).2

/-- A sub-router's mount point may end in a slash where a segment follows. -/
theorem relativePath_longer
    (nonempty : front ≠ []) (some_ : back ≠ [])
    (properBack : ∀ segment ∈ back, ProperSegment segment) :
    canonicalPath front ++ [slash] <+: canonicalPath (front ++ back) ∧
      relativePath (canonicalPath front ++ [slash])
          (canonicalPath (front ++ back)) = canonicalPath back := by
  obtain ⟨rest, join, -, other⟩ :=
    (slashed_cases properBack).resolve_left some_
  have path :
      canonicalPath (front ++ back) =
        (canonicalPath front ++ [slash]) ++ rest := by
    rw [canonicalPath_append nonempty, join, List.append_assoc]
    rfl
  rw [path]
  refine ⟨List.prefix_append _ _, ?_⟩
  rw [relativePath_append, if_pos (Or.inr other),
    canonicalPath_of_ne_nil some_, join, ascii_slash]
  rfl

/-- Only a mount point in canonical spelling has a canonical path under it. -/
theorem canonical_of_underMount
    {normalizedPath : StdString}
    (origin : normalizedPath.head? = some slash)
    (own : Utils.pieces slash normalizedPath = front)
    (properFront : ∀ segment ∈ front, ProperSegment segment)
    (properBack : ∀ segment ∈ back, ProperSegment segment)
    (under : underMount normalizedPath (canonicalPath (front ++ back)) =
      true) :
    normalizedPath = canonicalPath front := by
  have root : Utils.pieces slash [slash] = [] := by decide
  by_cases isRoot : normalizedPath = ascii "/"
  · rw [isRoot, ascii_slash, root] at own
    rw [isRoot, ← own]
    rfl
  · rcases (underMount_iff isRoot _).mp under with ⟨rest, whole, boundary⟩
    have proper : ∀ segment ∈ front ++ back, ProperSegment segment := by
      intro segment member
      exact (List.mem_append.mp member).elim (properFront segment)
        (properBack segment)
    have start : normalizedPath <+: canonicalPath (front ++ back) :=
      ⟨rest, whole.symm⟩
    rcases eq_canonicalPath_of_prefix proper origin start with
      same | ⟨nonempty, longer⟩
    · rwa [own] at same
    · -- the slash at the end of the mount point is the one before `back`
      rw [own] at nonempty longer
      rw [canonicalPath_append nonempty, longer,
        canonicalPath_of_ne_nil nonempty, List.append_assoc] at whole
      have behind := List.append_cancel_left whole
      rcases slashed_cases properBack with rfl | ⟨other, join, long, next⟩
      · cases behind
      · rw [join] at behind
        obtain rfl : other = rest := by simpa using behind
        exact absurd boundary (not_or.mpr ⟨long, next⟩)

/--
The spellings of a sub-router's mount point that strip off a canonical
path.
-/
theorem spelled_of_startsWith
    {normalizedPath : StdString}
    (origin : normalizedPath.head? = some slash)
    (own : Utils.pieces slash normalizedPath = front)
    (properFront : ∀ segment ∈ front, ProperSegment segment)
    (properBack : ∀ segment ∈ back, ProperSegment segment)
    (starts : normalizedPath <+: canonicalPath (front ++ back)) :
    normalizedPath = canonicalPath front ∨
      front ≠ [] ∧ back ≠ [] ∧
        normalizedPath = canonicalPath front ++ [slash] := by
  have proper : ∀ segment ∈ front ++ back, ProperSegment segment := by
    intro segment member
    exact (List.mem_append.mp member).elim (properFront segment)
      (properBack segment)
  rcases eq_canonicalPath_of_prefix proper origin starts with
    same | ⟨nonempty, longer⟩
  · exact Or.inl (by rwa [own] at same)
  · rw [own] at nonempty longer
    rw [← canonicalPath_of_ne_nil nonempty] at longer
    refine Or.inr ⟨nonempty, ?_, longer⟩
    rintro rfl
    have long := starts.length_le
    rw [longer, List.append_nil, List.length_append] at long
    simp at long

end Strip

/-! ## What the trie sees of a canonical path -/

/-- A NUL only hides the end of the last segment. -/
def Visible (path : List StdString) : Prop :=
  (∀ segment ∈ path.dropLast, (0 : UInt8) ∉ segment) ∧
    ∀ last, path.getLast? = some last → last.head? ≠ some 0

theorem visible_nil : Visible [] := by
  constructor <;> simp

theorem visible_cons_of_free
    {segment : StdString} (free : (0 : UInt8) ∉ segment)
    (path : List StdString) :
    Visible (segment :: path) ↔ Visible path := by
  cases path with
  | nil =>
      have start : segment.head? ≠ some 0 := fun zero =>
        free (List.mem_of_mem_head? zero)
      simp [Visible, start]
  | cons next path => simp [Visible, free]

theorem visible_cons_of_mem
    {segment : StdString} (cut : (0 : UInt8) ∈ segment)
    (path : List StdString) :
    Visible (segment :: path) ↔ path = [] ∧ segment.head? ≠ some 0 := by
  cases path with
  | nil => simp [Visible]
  | cons next path => simp [Visible, cut]

theorem cStr_eq_nil_iff {text : StdString} (nonempty : text ≠ []) :
    StdString.cStr text = [] ↔ text.head? = some 0 := by
  cases text with
  | nil => exact absurd rfl nonempty
  | cons byte text =>
      by_cases zero : byte = 0 <;> simp [StdString.cStr, zero]

theorem segments_canonicalPath (path : List StdString) :
    segments (canonicalPath path) =
      Utils.pieces slash (StdString.cStr (slashed path)) := by
  by_cases root : path = []
  · subst root
    exact segments_root
  · rw [canonicalPath_of_ne_nil root, segments_eq]

theorem startsPiece_cStr_slashed (path : List StdString) :
    startsPiece slash (StdString.cStr (slashed path)) = false := by
  cases path with
  | nil => rfl
  | cons segment path =>
      rw [slashed_cons, cStr_slash_cons]
      simp [startsPiece]

/--
An instance of a pattern, joined to a path, is found again by the trie
exactly if it is visible.
-/
theorem keyMatches_slashed_iff
    {pattern path : List StdString}
    (free : ∀ segment ∈ pattern, (0 : UInt8) ∉ segment)
    (proper : ∀ segment ∈ path, ProperSegment segment)
    (matching : KeyMatches pattern path) :
    KeyMatches pattern
        (Utils.pieces slash (StdString.cStr (slashed path))) ↔
      Visible path := by
  induction matching with
  | nil =>
      have none : Utils.pieces slash (StdString.cStr (slashed [])) = [] :=
        Utils.pieces_nil _
      rw [none]
      exact iff_of_true .nil visible_nil
  | @cons expected segment pattern path head tail induction =>
      have own := proper segment (List.mem_cons_self ..)
      have later := induction
        (fun other member => free other (List.mem_cons_of_mem _ member))
        (fun other member => proper other (List.mem_cons_of_mem _ member))
      rw [slashed_cons, cStr_slash_cons]
      by_cases cut : (0 : UInt8) ∈ segment
      · -- a literal of the pattern cannot contain the NUL
        have parameter : expected.head? = some colon :=
          head.resolve_left fun same =>
            free expected (List.mem_cons_self ..) (same ▸ cut)
        have slashFree : slash ∉ StdString.cStr segment := fun member =>
          own.2 ((List.takeWhile_prefix _).subset member)
        have none : pattern = [] ↔ path = [] := by
          rw [← List.length_eq_zero_iff, ← List.length_eq_zero_iff,
            tail.length_eq]
        rw [cStr_append_of_mem cut, pieces_separator_cons,
          Utils.pieces_of_notMem slashFree, visible_cons_of_mem cut, ← none]
        have start := cStr_eq_nil_iff own.1
        by_cases hidden : StdString.cStr segment = []
        · simp [hidden, KeyMatches, start.mp hidden]
        · have accepted : SegmentMatches expected (StdString.cStr segment) :=
            Or.inr parameter
          have shown : segment.head? ≠ some 0 := mt start.mpr hidden
          simpa [hidden, KeyMatches, accepted] using fun _ => shown
      · rw [StdString.cStr_append cut,
          pieces_segment_append own (startsPiece_cStr_slashed path),
          visible_cons_of_free cut, ← later]
        exact
          List.forall₂_cons.trans (and_iff_right head)

theorem segments_noNul
    {path segment : StdString} (member : segment ∈ segments path) :
    (0 : UInt8) ∉ segment := by
  rw [segments_eq] at member
  exact fun inside =>
    StdString.zero_notMem_cStr path (Utils.mem_of_mem_pieces member inside)

theorem segments_proper
    {path segment : StdString} (member : segment ∈ segments path) :
    ProperSegment segment := by
  rw [segments_eq] at member
  exact Utils.mem_pieces member

theorem normalizePath_noNul
    {path : StdString} (free : (0 : UInt8) ∉ path) :
    (0 : UInt8) ∉ normalizePath path := by
  have rooted :
      (0 : UInt8) ∉
        if path.head? ≠ some slash then ascii "/" ++ path else path := by
    split
    · intro inside
      rcases List.mem_append.mp inside with letter | own
      · simp [ascii] at letter
      · exact free own
    · exact free
  simp only [normalizePath]
  generalize
    (if path.head? ≠ some slash then ascii "/" ++ path else path) =
      normalized at rooted ⊢
  split
  · simp [ascii]
  · split
    · exact fun inside => rooted (List.mem_of_mem_dropLast inside)
    · exact rooted

/-- Without a NUL the pieces of the normal form are the segments. -/
theorem pieces_normalizePath
    {path : StdString} (free : (0 : UInt8) ∉ path) :
    Utils.pieces slash (normalizePath path) = segments path := by
  rw [← segments_normalizePath, segments_eq,
    StdString.cStr_eq_self (normalizePath_noNul free)]

/-! ## Chains of routers -/

/-- The mounts of a chain of routers, each sub-router before its parent. -/
def mountCalls : Target → List (StdString × Nat) → List SetupCall
  | _, [] => []
  | parent, (mount, id) :: chain =>
      mountCalls (.router id) chain ++ [.mount parent mount id]

theorem mounts_mountCalls (parent : Target) (chain : List (StdString × Nat)) :
    (mountCalls parent chain).filterMap SetupCall.mounts =
      (chain.map Prod.snd).reverse := by
  induction chain generalizing parent with
  | nil => rfl
  | cons link chain induction =>
      rw [mountCalls, List.filterMap_append, induction]
      simp [SetupCall.mounts]

theorem mem_mountCalls
    {parent : Target} {chain : List (StdString × Nat)} {call : SetupCall}
    (member : call ∈ mountCalls parent chain) :
    ∃ target mount id, call = .mount target mount id := by
  induction chain generalizing parent with
  | nil => cases member
  | cons link chain induction =>
      rcases List.mem_append.mp member with later | own
      · exact induction later
      · exact ⟨_, _, _, List.mem_singleton.mp own⟩

theorem reaches_mountCalls
    {calls : List SetupCall} {front : List StdString} {parent : Target}
    (reached : Reaches calls front parent)
    {chain : List (StdString × Nat)}
    (inside : ∀ call ∈ mountCalls parent chain, call ∈ calls)
    {mount : StdString} {id : Nat}
    (ends : chain.getLast? = some (mount, id)) :
    Reaches calls (front ++ chain.map Prod.fst) (.router id) := by
  induction chain generalizing front parent with
  | nil => cases ends
  | cons link chain induction =>
      have own : Reaches calls (front ++ [link.1]) (.router link.2) :=
        .mount reached (inside _ (List.mem_append_right _ (by simp)))
      cases chain with
      | nil =>
          obtain rfl : link = (mount, id) := by simpa using ends
          exact own
      | cons next chain =>
          have later := induction own
            (fun call member => inside call (List.mem_append_left _ member))
            (by rwa [List.getLast?_cons_cons] at ends)
          rw [List.append_assoc] at later
          exact later

/-! ## The route of a chain is found -/

/-- The only route of the program is found wherever its pattern matches. -/
theorem answer_of_only_route
    {calls : List SetupCall} {label : Nat} {target : Target} {verb : Verb}
    {pattern : StdString}
    (placed : calls[label]? = some (.route target verb pattern true))
    (only : ∀ other target' verb' pattern' present,
      calls[other]? = some (.route target' verb' pattern' present) →
      other = label)
    {req : HttpRequest J} (method : req.method ∈ verb.methods)
    (patternOrigin : pattern.head? = some slash)
    (pathOrigin : req.path.head? = some slash)
    (matching : KeyMatches (segments pattern) (segments req.path)) :
    (answer (registrationsOn target calls) req).1 = some label := by
  have handlers : ∀ registration ∈ registrationsOn target calls,
      registration.handler = some label := by
    intro registration member
    rcases List.mem_flatMap.mp member with ⟨⟨call, position⟩, at_, inside⟩
    have found : calls[position]? = some call :=
      List.mk_mem_zipIdx_iff_getElem?.mp at_
    cases call with
    | route on verb' pattern' present =>
        obtain rfl := only _ _ _ _ _ found
        rw [placed] at found
        cases found
        simp only [SetupCall.registers, if_true, List.mem_map] at inside
        rcases inside with ⟨method', -, rfl⟩
        rfl
    | use on => cases inside
    | useAt on scope => cases inside
    | mount on path id => cases inside
  have registered :
      (⟨req.method, pattern, some label⟩ : Registration (Option Nat)) ∈
        registrationsOn target calls := by
    refine List.mem_flatMap.mpr
      ⟨(_, label), List.mk_mem_zipIdx_iff_getElem?.mpr placed, ?_⟩
    simp [SetupCall.registers, method]
  have head :
      headSegment req.method pattern = headSegment req.method req.path := by
    rw [headSegment_of_origin _ patternOrigin,
      headSegment_of_origin _ pathOrigin]
  have tail : KeyMatches (tailSegments pattern) (tailSegments req.path) := by
    rwa [tailSegments_of_origin patternOrigin,
      tailSegments_of_origin pathOrigin]
  have value :
      (routeTable (headSegment req.method req.path)
          (registrationsOn target calls)).value
        (shapeOf (tailSegments pattern)) = some label := by
    apply Table.value_insertLog_of_agree
    · intro entry member _
      rcases List.mem_map.mp member with ⟨registration, own, rfl⟩
      exact handlers registration (List.mem_of_mem_filter own)
    · left
      refine
        ⟨(patternOf (tailSegments pattern), some label),
          List.mem_map.mpr ⟨⟨req.method, pattern, some label⟩, ?_, rfl⟩, rfl⟩
      exact List.mem_filter.mpr ⟨registered, by simpa using head⟩
  unfold answer
  dsimp only
  split
  case h_1 shape handler found =>
    rcases matches_of_lookup found with ⟨registration, member, own, -⟩
    rw [handlers registration member] at own
    exact own.symm
  case h_2 missed =>
    have none :=
      Table.lookup_eq_none_iff.mp missed _ ((keyMatches_iff _ _).mp tail)
    rw [value] at none
    cases none

/-! ## The mounts that are served -/

/-- The normal form of the mount path is its canonical spelling. -/
def Spelled (mount : StdString) : Prop :=
  normalizePath mount = canonicalPath (segments mount)

/-- The mounts of a chain below which a path is served. -/
def ServedBelow : List StdString → List StdString → Prop
  | [mount], path => Spelled mount ∧ Visible path
  | [mount, inner], path =>
      Spelled mount ∧
        (Spelled inner ∨
          segments inner ≠ [] ∧ path ≠ [] ∧
            normalizePath inner =
              canonicalPath (segments inner) ++ [slash]) ∧
        Visible path
  | _, _ => False

section Serving

variable {mount inner : StdString} {path rest : List StdString}

theorem spelled_of_underMount
    (free : (0 : UInt8) ∉ mount)
    (proper : ∀ segment ∈ rest, ProperSegment segment)
    (under :
      underMount (normalizePath mount)
        (canonicalPath (segments mount ++ rest)) = true) :
    Spelled mount ∧
      mountedPath (normalizePath mount)
          (canonicalPath (segments mount ++ rest)) = canonicalPath rest := by
  have spelled : Spelled mount :=
    canonical_of_underMount (normalizePath_origin mount)
      (pieces_normalizePath free) (fun _ => segments_proper) proper under
  refine ⟨spelled, ?_⟩
  rw [spelled]
  exact (underMount_canonical (fun _ => segments_proper) proper).2

theorem underMount_of_spelled
    (proper : ∀ segment ∈ rest, ProperSegment segment)
    (spelled : Spelled mount) :
    underMount (normalizePath mount)
        (canonicalPath (segments mount ++ rest)) = true ∧
      mountedPath (normalizePath mount)
          (canonicalPath (segments mount ++ rest)) = canonicalPath rest := by
  rw [spelled]
  exact underMount_canonical (fun _ => segments_proper) proper

/-- What the closure of a sub-router strips off a canonical path. -/
theorem startsWith_iff_spelled
    (free : (0 : UInt8) ∉ inner)
    (proper : ∀ segment ∈ path, ProperSegment segment) :
    (StdString.startsWith (canonicalPath (segments inner ++ path))
        (normalizePath inner) = true ↔
      (Spelled inner ∨
        segments inner ≠ [] ∧ path ≠ [] ∧
          normalizePath inner =
            canonicalPath (segments inner) ++ [slash])) ∧
      (StdString.startsWith (canonicalPath (segments inner ++ path))
          (normalizePath inner) = true →
        relativePath (normalizePath inner)
          (canonicalPath (segments inner ++ path)) =
            canonicalPath path) := by
  have strip :
      (Spelled inner ∨
        segments inner ≠ [] ∧ path ≠ [] ∧
          normalizePath inner =
            canonicalPath (segments inner) ++ [slash]) →
      normalizePath inner <+: canonicalPath (segments inner ++ path) ∧
        relativePath (normalizePath inner)
          (canonicalPath (segments inner ++ path)) =
            canonicalPath path := by
    rintro (spelled | ⟨nonempty, some_, longer⟩)
    · rw [spelled]
      exact relativePath_canonical (fun _ => segments_proper) proper
    · rw [longer]
      exact relativePath_longer nonempty some_ proper
  have spelling :=
    spelled_of_startsWith (normalizePath_origin inner)
      (pieces_normalizePath free) (fun _ => segments_proper) proper
  rw [StdString.startsWith_iff]
  exact
    ⟨⟨spelling, fun served => (strip served).1⟩,
      fun starts => (strip (spelling starts)).2⟩

theorem visible_iff
    {pattern : StdString}
    (proper : ∀ segment ∈ path, ProperSegment segment)
    (matching : KeyMatches (segments pattern) path) :
    KeyMatches (segments pattern) (segments (canonicalPath path)) ↔
      Visible path := by
  rw [segments_canonicalPath]
  exact
    keyMatches_slashed_iff (fun _ => segments_noNul) proper matching

/-- A path is dispatched to the end of a chain only below served mounts. -/
theorem served_of_dispatched
    {calls : List SetupCall} {chain : List StdString} {target : Target}
    {below pattern : StdString} (notServer : target ≠ .server)
    (literal : ∀ mount ∈ chain, (0 : UInt8) ∉ mount)
    (proper : ∀ segment ∈ path, ProperSegment segment)
    (matching : KeyMatches (segments pattern) path)
    (dispatched :
      Dispatched calls (canonicalPath (chain.flatMap segments ++ path))
        chain target below)
    (hit : KeyMatches (segments pattern) (segments below)) :
    ServedBelow chain path := by
  generalize whole :
    canonicalPath (chain.flatMap segments ++ path) = full at dispatched
  cases dispatched with
  | server => exact absurd rfl notServer
  | @router mount id mounted under =>
      have cut : [mount].flatMap segments = segments mount :=
        List.flatMap_singleton ..
      rw [cut] at whole
      subst whole
      obtain ⟨spelled, left⟩ :=
        spelled_of_underMount (literal mount (by simp)) proper under
      rw [left, visible_iff proper matching] at hit
      exact ⟨spelled, hit⟩
  | @subRouter mount inner parent id mounted under innerMounted starts =>
      have cut :
          [mount, inner].flatMap segments ++ path =
            segments mount ++ (segments inner ++ path) := by
        simp
      have properRest :
          ∀ segment ∈ segments inner ++ path, ProperSegment segment := by
        intro segment member
        exact (List.mem_append.mp member).elim segments_proper
          (proper segment)
      rw [cut] at whole
      subst whole
      obtain ⟨spelled, left⟩ :=
        spelled_of_underMount (literal mount (by simp)) properRest under
      rw [left] at starts hit
      obtain ⟨spelling, stripped⟩ :=
        startsWith_iff_spelled (literal inner (by simp)) proper
      rw [stripped starts, visible_iff proper matching] at hit
      exact ⟨spelled, spelling.mp starts, hit⟩

end Serving

/-! ## The run of a chain of routers -/

section Runs

variable {callbacks : Callbacks J A} {routers : Routers}
  {traced : Traced Event (Exchange J A)} {next : Run J A}
  {normalizedPath : StdString} {id label : Nat}

theorem trace_of_routeHandler
    (under : underMount normalizedPath traced.state.req.path = true)
    (hit :
      ((routers id).registry.getHandler
        { traced.state.req with
          path := mountedPath normalizedPath
            traced.state.req.path }).1 = some label) :
    ((ServerMiddleware.mounted normalizedPath [.routeHandler id]).call
        callbacks routers next traced).2.trace =
      traced.trace ++ [.handled label] := by
  rw [ServerMiddleware.call_mounted callbacks routers under next]
  split
  case h_1 found req equal =>
    rw [equal] at hit
    obtain rfl := Option.some.inj hit
    rfl
  case h_2 req equal =>
    rw [equal] at hit
    cases hit

theorem trace_of_subRouter
    {inner : StdString} {mws : List RouterMiddleware}
    (under : underMount normalizedPath traced.state.req.path = true)
    (starts :
      StdString.startsWith
        (mountedPath normalizedPath traced.state.req.path) inner = true)
    (hit :
      ((routers id).registry.getHandler
        { traced.state.req with
          path := relativePath inner
            (mountedPath normalizedPath
              traced.state.req.path) }).1 = some label) :
    ((ServerMiddleware.mounted normalizedPath
          (.subRouter inner id :: mws)).call
        callbacks routers next traced).2.trace =
      traced.trace ++ [.handled label] := by
  -- the state in which the sub-router's closure is called
  let entered :=
    traced.update
      (Exchange.setPath
        (mountedPath normalizedPath traced.state.req.path))
  simp only [ServerMiddleware.call, under, if_true, executeMiddlewareChain]
  rcases
    RouterMiddleware.call_subRouter_cases callbacks routers id
      (executeMiddlewareChain (RouterMiddleware.call callbacks routers) mws
        fun after =>
          next (after.update (Exchange.setPath traced.state.req.path)))
      entered inner with
    ⟨-, found, req, own, handled⟩ | ⟨none, -⟩
  · obtain rfl : found = label := Option.some.inj (own.symm.trans hit)
    exact (congrArg (·.2.trace) handled).trans (leaveSubRouter_trace _ _)
  · cases (none starts).symm.trans hit

end Runs

section Queues

variable {before after : List SetupCall} {mount inner : StdString}
  {id sub last : Nat} {verb : Verb} {pattern : StdString}

/--
The queue of the server after the mount of a chain; a route of a router
changes no queue.
-/
theorem queue_of_one
    (mounts : before ++ after = [.mount .server mount id]) :
    (Setup.build
        (before ++ .route (.router last) verb pattern true ::
          after)).server.queue =
      [.mounted (normalizePath mount) [.routeHandler id]] := by
  rcases List.append_eq_singleton_iff.mp mounts with
    ⟨rfl, rfl⟩ | ⟨rfl, rfl⟩ <;>
  simp [Setup.build, Setup.new, Setup.apply_server_queue,
    Setup.serverElement, Router.getMiddlewares,
    Setup.apply_routers_queue, Setup.routerElement, RouteRegistry.new,
    Router.new]

theorem queue_of_two
    (mounts :
      before ++ after =
        [.mount (.router id) inner sub, .mount .server mount id]) :
    (Setup.build
        (before ++ .route (.router last) verb pattern true ::
          after)).server.queue =
      [.mounted (normalizePath mount)
        [.subRouter (normalizePath inner) sub, .routeHandler id]] := by
  rcases List.append_eq_cons_iff.mp mounts with
    ⟨rfl, rfl⟩ | ⟨first, rfl, cut⟩
  · simp [Setup.build, Setup.new, Setup.apply_server_queue,
      Setup.serverElement, Router.getMiddlewares,
      Setup.apply_routers_queue, Setup.routerElement, RouteRegistry.new,
      Router.new]
  · rcases List.append_eq_singleton_iff.mp cut.symm with
      ⟨rfl, rfl⟩ | ⟨rfl, rfl⟩ <;>
    simp [Setup.build, Setup.new, Setup.apply_server_queue,
      Setup.serverElement, Router.getMiddlewares,
      Setup.apply_routers_queue, Setup.routerElement, RouteRegistry.new,
      Router.new]

end Queues

/-! ## Reachability -/

section Chain

variable {chain : List (StdString × Nat)} {before after : List SetupCall}
  {mount : StdString} {id : Nat} {verb : Verb} {pattern : StdString}
  {path : List StdString}

theorem chain_mountedOnce
    (distinct : (chain.map Prod.snd).Nodup)
    (mounts : before ++ after = mountCalls .server chain) :
    MountedOnce
      (before ++ .route (.router id) verb pattern true :: after) := by
  have same :
      (before ++ SetupCall.route (.router id) verb pattern true ::
          after).filterMap SetupCall.mounts =
        (chain.map Prod.snd).reverse := by
    rw [← mounts_mountCalls .server chain, ← mounts,
      List.filterMap_append, List.filterMap_append,
      List.filterMap_cons_none rfl]
  rw [MountedOnce, same, List.nodup_reverse]
  exact distinct

/-- The calls beside the route are mounts. -/
theorem chain_calls
    (mounts : before ++ after = mountCalls .server chain)
    {other : Nat} {call : SetupCall}
    (found :
      (before ++ .route (.router id) verb pattern true ::
        after)[other]? = some call) :
    (other = before.length ∧
        call = .route (.router id) verb pattern true) ∨
      ∃ target mount id, call = .mount target mount id := by
  have isMount {call : SetupCall} (member : call ∈ before ++ after) :
      ∃ target mount id, call = .mount target mount id := by
    rw [mounts] at member
    exact mem_mountCalls member
  rcases Nat.lt_trichotomy other before.length with early | rfl | late
  · rw [List.getElem?_append_left early] at found
    exact
      Or.inr
        (isMount (List.mem_append_left _ (List.mem_of_getElem? found)))
  · left
    simpa using found.symm
  · rcases Nat.exists_eq_add_of_lt late with ⟨offset, rfl⟩
    rw [List.getElem?_append_right (by omega),
      show before.length + offset + 1 - before.length = offset + 1 by omega,
      List.getElem?_cons_succ] at found
    exact
      Or.inr
        (isMount (List.mem_append_right _ (List.mem_of_getElem? found)))

/--
A route at the end of a chain of routers is reachable exactly if its
chain is served.

The chain lists the mounts from the server on, each with the number of the
router it mounts; the calls around the route are these mounts.  The path of
the request is the single-slash join of the segments of the mounts and of an
instance of the pattern.
-/
theorem nested_route_reachable_iff
    (distinct : (chain.map Prod.snd).Nodup)
    (literal : ∀ link ∈ chain, (0 : UInt8) ∉ link.1)
    (ends : chain.getLast? = some (mount, id))
    (mounts : before ++ after = mountCalls .server chain)
    (origin : pattern.head? = some slash)
    (proper : ∀ segment ∈ path, ProperSegment segment)
    (matching : KeyMatches (segments pattern) path)
    [Json J] (callbacks : Callbacks J A) {exchange : Exchange J A}
    (method : exchange.req.method ∈ verb.methods)
    (canonical :
      exchange.req.path =
        canonicalPath ((chain.map Prod.fst).flatMap segments ++ path)) :
    .handled before.length ∈
        (Setup.build
          (before ++ .route (.router id) verb pattern true ::
            after)).events callbacks exchange ↔
      ServedBelow (chain.map Prod.fst) path := by
  generalize program :
    before ++ .route (.router id) verb pattern true :: after = calls
  have token := Verb.methods_token method
  have placed :
      calls[before.length]? =
        some (.route (.router id) verb pattern true) := by
    rw [← program]
    simp
  constructor
  · intro ran
    have keeps : callbacks.KeepPaths calls := by
      intro label call found registers
      rw [← program] at found
      rcases chain_calls mounts found with ⟨-, rfl⟩ | ⟨_, _, _, rfl⟩ <;>
        cases registers
    obtain ⟨chain', target, below, dispatched, verb', pattern', found,
      hit⟩ := dispatched_of_handled keeps token ran
    rw [placed] at found
    cases found
    have reached : Reaches calls (chain.map Prod.fst) (.router id) := by
      have inside : ∀ call ∈ mountCalls .server chain, call ∈ calls := by
        intro call member
        rw [← mounts] at member
        rw [← program]
        simp only [List.mem_append, List.mem_cons] at member ⊢
        exact member.imp_right Or.inr
      exact reaches_mountCalls .server inside ends
    have once : MountedOnce calls :=
      program ▸ chain_mountedOnce distinct mounts
    obtain rfl := reached.unique once dispatched.reaches
    rw [canonical] at dispatched
    refine
      served_of_dispatched (by simp) ?_ proper matching dispatched hit
    intro mount member
    rcases List.mem_map.mp member with ⟨link, inside, rfl⟩
    exact literal link inside
  · intro served
    have only : ∀ other target verb' pattern' present,
        calls[other]? = some (.route target verb' pattern' present) →
        other = before.length := by
      intro other target verb' pattern' present found
      rw [← program] at found
      rcases chain_calls mounts found with ⟨here, -⟩ | ⟨_, _, _, wrong⟩
      · exact here
      · cases wrong
    have hit (req : HttpRequest J) (own : req.method ∈ verb.methods)
        (at_ : req.path = canonicalPath path) (visible : Visible path) :
        (((Setup.build calls).routers id).registry.getHandler req).1 =
          some before.length := by
      rw [router_getHandler calls id (Verb.methods_token own)]
      apply answer_of_only_route placed only own origin
      · rw [at_]
        by_cases root : path = []
        · rw [root]
          rfl
        · obtain ⟨rest, join, -⟩ :=
            (slashed_cases proper).resolve_left root
          rw [canonicalPath_of_ne_nil root, join]
          rfl
      · rw [at_, visible_iff proper matching]
        exact visible
    rw [Setup.events, Setup.runChain]
    match chain, served with
    | [link], served =>
        rcases served with ⟨spelled, visible⟩
        obtain rfl : link = (mount, id) := by simpa using ends
        have point :
            exchange.req.path = canonicalPath (segments mount ++ path) := by
          simpa using canonical
        rcases underMount_of_spelled proper spelled with ⟨under, left⟩
        rw [← point] at under left
        have asked := hit
          { exchange.req with
            path := mountedPath (normalizePath mount) exchange.req.path }
          method left visible
        have trace :=
          @trace_of_routeHandler J A callbacks (Setup.build calls).routers
            ⟨exchange, []⟩ (runRoute (Setup.build calls).server callbacks)
            _ id _ under asked
        rw [← program, queue_of_one mounts, program]
        simp only [executeMiddlewareChain, trace]
        simp
    | [link, final], served =>
        rcases served with ⟨spelled, inner, visible⟩
        obtain rfl : final = (mount, id) := by simpa using ends
        have point :
            exchange.req.path =
              canonicalPath
                (segments link.1 ++ (segments mount ++ path)) := by
          simpa using canonical
        have properRest :
            ∀ segment ∈ segments mount ++ path, ProperSegment segment := by
          intro segment member
          exact (List.mem_append.mp member).elim segments_proper
            (proper segment)
        rcases underMount_of_spelled properRest spelled with ⟨under, left⟩
        obtain ⟨spelling, stripped⟩ :=
          startsWith_iff_spelled (literal (mount, id) (by simp)) proper
        have starts := spelling.mpr inner
        have below := stripped starts
        rw [← point] at under left
        rw [← left] at starts below
        have asked := hit
          { exchange.req with
            path := relativePath (normalizePath mount)
              (mountedPath (normalizePath link.1) exchange.req.path) }
          method below visible
        have trace :=
          @trace_of_subRouter J A callbacks (Setup.build calls).routers
            ⟨exchange, []⟩ (runRoute (Setup.build calls).server callbacks)
            _ id _ _ [.routeHandler link.2] under starts asked
        rw [← program, queue_of_two mounts, program]
        simp only [executeMiddlewareChain, trace]
        simp

end Chain

/-- Two routers, mounted in spellings with and without slashes. -/
def apiChain : List (StdString × Nat) :=
  [(ascii "api/", 1), (ascii "v1", 2)]

theorem segments_users :
    segments (ascii "/users/:id") = [ascii "users", ascii ":id"] := by
  rw [segments_eq]
  decide

theorem properSegment_iff (segment : StdString) :
    ProperSegment segment ↔ segment ≠ [] ∧ slash ∉ segment := Iff.rfl

theorem nested_route_reachable_iff_api :
    .handled 2 ∈
        (Setup.build
          (mountCalls .server apiChain ++
            [.route (.router 2) .GET (ascii "/users/:id") true])).events
          quietCallbacks
          (Exchange.arriving (ascii "GET") (ascii "/api/v1/users/7")) ↔
      ServedBelow [ascii "api/", ascii "v1"] [ascii "users", ascii "7"] := by
  have single :
      canonicalPath
          ([ascii "api/", ascii "v1"].flatMap segments ++
            [ascii "users", ascii "7"]) = ascii "/api/v1/users/7" := by
    simp only [List.flatMap_cons, List.flatMap_nil, segments_eq]
    decide
  have matching :
      KeyMatches (segments (ascii "/users/:id"))
        [ascii "users", ascii "7"] := by
    rw [segments_users]
    exact .cons (Or.inl rfl) (.cons (Or.inr rfl) .nil)
  exact
    @nested_route_reachable_iff FlatJson Unit apiChain
      (mountCalls .server apiChain) [] (ascii "v1") 2 .GET
      (ascii "/users/:id") [ascii "users", ascii "7"] (by decide) (by decide)
      rfl (List.append_nil _) rfl
      (by simp only [properSegment_iff]; decide) matching _ quietCallbacks
      (Exchange.arriving (ascii "GET") (ascii "/api/v1/users/7"))
      (by decide) single.symm

/-- The route of a third router is never reached. -/
theorem nested_route_unreachable :
    ascii "/a/b/c/d" =
        canonicalPath
          ([ascii "/a", ascii "/b", ascii "/c"].flatMap segments ++
            segments (ascii "/d")) ∧
      .handled 3 ∉
        (Setup.build
          (mountCalls .server
              [(ascii "/a", 1), (ascii "/b", 2), (ascii "/c", 3)] ++
            [.route (.router 3) .GET (ascii "/d") true])).events
          quietCallbacks
          (Exchange.arriving (ascii "GET") (ascii "/a/b/c/d")) := by
  refine ⟨?_, by decide +kernel⟩
  simp only [List.flatMap_cons, List.flatMap_nil, segments_eq]
  decide

end PlusWeb
