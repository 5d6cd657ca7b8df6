import Ydsh.Library.PathWalk

/-
  The path that `cd` and completion make of a path and a
  working directory, `.` and `..` being taken away from its
  text.

  Main declarations:
    * `expandDots`
    * `Normalises`
    * `expandDots_above`
    * `expandDots_iff`
-/

----
-- Expanding
----

namespace Ydsh

namespace Core

open Library

/- A string without its closing NUL. -/
abbrev CStr := List UInt8

abbrev SLASH : UInt8 := 0x2F

abbrev DOT : UInt8 := 0x2E

abbrev CURRENT : CStr := [DOT]

abbrev PARENT : CStr := [DOT, DOT]

def isFullPath (path : CStr) : Bool :=
  path.head? == some SLASH

/-
  The loop over the slashes.  Each round shortens the path, so
  that its length bounds the rounds.
-/
def pathLoop : Nat → List CStr → CStr → List CStr × CStr
  | 0, stack, path => (stack, path)
  | rounds + 1, stack, path =>
      match path.idxOf? SLASH with
      | none => (stack, path)
      | some size =>
          if size = 0 then
            pathLoop rounds stack (path.drop 1)
          else
            pathLoop rounds (stack ++ [path.take size])
              (path.drop size)

/- What follows the last slash is a name too. -/
def pushLast (stack : List CStr) (path : CStr) : List CStr :=
  if path ≠ [] then stack ++ [path] else stack

def createPathStack (path : CStr) : List CStr :=
  let begun :=
    if isFullPath path then ([[SLASH]], path.drop 1)
    else ([], path)
  let looped := pathLoop path.length begun.1 begun.2
  pushLast looped.1 looped.2

/- The names of the directory, none for a full path. -/
def baseStack
    (getCWD basePath : Option CStr)
    (pathStack : List CStr) : Option (List CStr) :=
  if ! pathStack.isEmpty && pathStack.head? != some [SLASH] then
    if (basePath.map isFullPath).getD false then
      basePath.map createPathStack
    else
      getCWD.map createPathStack
  else
    some []

def resolveStack : List CStr → List CStr → List CStr
  | resolved, [] => resolved
  | resolved, e :: pathStack =>
      if e = PARENT then
        if ! resolved.isEmpty then
          resolveStack resolved.dropLast pathStack
        else
          resolveStack resolved pathStack
      else if e ≠ CURRENT then
        resolveStack (resolved ++ [e]) pathStack
      else
        resolveStack resolved pathStack

/- The element at the bottom is not written. -/
def createPath (resolved : List CStr) : CStr :=
  (if resolved.length = 1 then [SLASH] else []) ++
    (resolved.drop 1).flatMap fun e => SLASH :: e

def expandDots
    (getCWD basePath path : Option CStr) : CStr :=
  match path with
  | none => []
  | some path =>
      if path = [] then
        []
      else
        let pathStack := createPathStack path
        match baseStack getCWD basePath pathStack with
        | none => []
        | some resolved =>
            createPath (resolveStack resolved pathStack)

----
-- Normal paths
----

/- What a name in a path asks for. -/
def move (name : CStr) : Move CStr :=
  if name = CURRENT then .stay
  else if name = PARENT then .up
  else .into name

/- The directory a path that is not full starts from. -/
def workingDir
    (getCWD basePath : Option CStr) : Option CStr :=
  if (basePath.map isFullPath).getD false then basePath
  else getCWD

def joined (dir path : CStr) : CStr :=
  if isFullPath path then path else dir ++ SLASH :: path

def IsPlain (name : CStr) : Prop :=
  name ≠ CURRENT ∧ name ≠ PARENT

instance (name : CStr) : Decidable (IsPlain name) :=
  inferInstanceAs (Decidable (_ ∧ _))

/-
  The normalisation of a joined path: a full path whose
  names, none of them empty or a dot name, are those of the
  node that the names of the joined path lead to.
-/
structure Normalised (dir path result : CStr) : Prop where
  full : result = render SLASH (components SLASH result)
  plain : ∀ name ∈ components SLASH result, IsPlain name
  reached :
    components SLASH result =
      resolve []
        ((components SLASH (joined dir path)).map move)

/-
  What is expected of the expansion from a directory: the
  normalisation, which another expansion leaves as it is.
-/
structure Normalises
    (getCWD basePath : Option CStr)
    (dir path : CStr) : Prop where
  normal :
    Normalised dir path (expandDots getCWD basePath (some path))
  again :
    expandDots getCWD basePath
        (some (expandDots getCWD basePath (some path))) =
      expandDots getCWD basePath (some path)

/- The names in front of those of the path. -/
def baseNames (dir path : CStr) : List CStr :=
  if isFullPath path then [] else components SLASH dir

/-
  The names of the path never climb above the root; and the
  names in front of them are plain, unless they are all
  climbed.
-/
structure StaysBelow (dir path : CStr) : Prop where
  below :
    climb ((components SLASH path).map move) ≤
      (baseNames dir path).length
  plain :
    climb ((components SLASH path).map move) <
        (baseNames dir path).length →
      ∀ name ∈ baseNames dir path, IsPlain name

----
-- Stacks
----

theorem pathLoop_eq
    {rounds : Nat}
    {path : CStr}
    (stack : List CStr)
    (hRounds : path.length ≤ rounds) :
    pushLast (pathLoop rounds stack path).1
        (pathLoop rounds stack path).2 =
      stack ++ components SLASH path := by
  induction rounds generalizing stack path with
  | zero =>
      have hNil : path = [] :=
        List.length_eq_zero_iff.mp (Nat.le_zero.mp hRounds)
      rw [hNil]
      exact (List.append_nil stack).symm
  | succ rounds ih =>
      unfold pathLoop
      cases hFirst : path.idxOf? SLASH with
      | none =>
          have hSlash := List.idxOf?_eq_none_iff.mp hFirst
          by_cases hNil : path = []
          · rw [hNil]
            exact (List.append_nil stack).symm
          · rw [components_of_not_mem hNil hSlash]
            exact if_pos hNil
      | some size =>
          rcases List.idxOf?_eq_some_iff.mp hFirst with
            ⟨hSize, hHere, hBefore⟩
          have hRest :
              path.drop size = SLASH :: path.drop (size + 1) := by
            rw [List.drop_eq_getElem_cons hSize, hHere]
          by_cases hZero : size = 0
          · subst hZero
            rw [List.drop_zero] at hRest
            have hLength :
                (path.drop 1).length ≤ rounds := by
              rw [List.length_drop]
              omega
            have hLoop := ih stack hLength
            simp only [if_pos]
            rw [hLoop]
            conv_rhs => rw [hRest, components_slash]
          · have hName : path.take size ≠ [] := by
              intro hNil
              have hLength := congrArg List.length hNil
              rw [List.length_take, List.length_nil] at hLength
              omega
            have hSlash : SLASH ∉ path.take size := by
              intro hMem
              rcases List.getElem_of_mem hMem with
                ⟨index, hIndex, hAt⟩
              rw [List.length_take] at hIndex
              rw [List.getElem_take] at hAt
              exact hBefore index (by omega) hAt
            have hLength : (path.drop size).length ≤ rounds := by
              rw [List.length_drop]
              omega
            have hLoop :=
              ih (stack ++ [path.take size])
                hLength
            have hPath :
                components SLASH path =
                  path.take size ::
                    components SLASH (path.drop size) := by
              have hSplit :=
                components_append SLASH (path.take size)
                  (path.drop (size + 1))
              rw [← hRest, List.take_append_drop,
                components_of_not_mem hName hSlash] at hSplit
              rw [hSplit, hRest, components_slash]
              rfl
            simp only [if_neg hZero]
            rw [hLoop, hPath, List.append_assoc,
              List.singleton_append]

theorem createPathStack_full
    {path : CStr}
    (hFull : isFullPath path = true) :
    createPathStack path =
      [SLASH] :: components SLASH path := by
  have hHead : path.head? = some SLASH := by
    simpa [isFullPath] using hFull
  rcases List.head?_eq_some_iff.mp hHead with ⟨rest, rfl⟩
  have hLoop :=
    pathLoop_eq [[SLASH]]
      (Nat.le_succ rest.length)
  rw [components_slash]
  exact hLoop

theorem createPathStack_relative
    {path : CStr}
    (hFull : isFullPath path = false) :
    createPathStack path = components SLASH path := by
  have hLoop :=
    pathLoop_eq [] (Nat.le_refl path.length)
  unfold createPathStack
  simp only [hFull]
  exact hLoop

/- The loop over the names walks along them. -/
theorem resolveStack_eq
    (resolved names : List CStr) :
    resolveStack resolved names =
      resolve resolved (names.map move) := by
  induction names generalizing resolved with
  | nil => rfl
  | cons e names ih =>
      unfold resolveStack
      rw [List.map_cons]
      by_cases hParent : e = PARENT
      · have hMove : move e = .up := by
          rw [hParent]
          rfl
        rw [if_pos hParent, hMove]
        cases resolved with
        | nil => exact ih []
        | cons first more =>
            exact ih (first :: more).dropLast
      · rw [if_neg hParent]
        by_cases hCurrent : e = CURRENT
        · have hMove : move e = .stay := by
            rw [hCurrent]
            rfl
          rw [if_neg (not_not.mpr hCurrent), hMove]
          exact ih resolved
        · have hMove : move e = .into e := by
            unfold move
            rw [if_neg hCurrent, if_neg hParent]
          rw [if_pos hCurrent, hMove]
          exact ih (resolved ++ [e])

theorem resolve_plain
    (place : List CStr)
    {names : List CStr}
    (hPlain : ∀ name ∈ names, IsPlain name) :
    resolve place (names.map move) = place ++ names := by
  have hMoves : names.map move = names.map Move.into :=
    List.map_congr_left fun name hName => by
      unfold move
      rw [if_neg (hPlain name hName).1,
        if_neg (hPlain name hName).2]
  rw [hMoves, resolve_into]

theorem mem_resolve_move
    {names : List CStr}
    {name : CStr}
    (hName : name ∈ resolve [] (names.map move)) :
    name ∈ names ∧ IsPlain name := by
  rcases mem_resolve hName with hNone | hMoves
  · exact absurd hNone List.not_mem_nil
  · rcases List.mem_map.mp hMoves with ⟨other, hOther, hMove⟩
    unfold move at hMove
    split_ifs at hMove with hCurrent hParent
    rw [← Move.into.inj hMove]
    exact ⟨hOther, hCurrent, hParent⟩

/- Dot names make a node less deep than its path is long. -/
theorem length_resolve_move
    {names : List CStr}
    (hDots : ¬ ∀ name ∈ names, IsPlain name) :
    (resolve [] (names.map move)).length < names.length := by
  rcases not_forall.mp hDots with ⟨name, hName⟩
  rcases Classical.not_imp.mp hName with ⟨hMem, hDot⟩
  have hShort :=
    length_resolve_lt [] (List.mem_map_of_mem (f := move) hMem)
      (by
        intro other hMove
        unfold move at hMove
        split_ifs at hMove with hCurrent hParent
        exact hDot ⟨hCurrent, hParent⟩)
  rw [List.length_map, List.length_nil, Nat.zero_add] at hShort
  exact hShort

/- The stack of a node, whose bottom stands for the root. -/
theorem createPath_cons
    (bottom : CStr)
    (names : List CStr) :
    createPath (bottom :: names) = render SLASH names := by
  cases names with
  | nil => rfl
  | cons name names =>
      unfold createPath render
      rw [List.drop_one, List.tail_cons, List.flatMap_cons]
      rfl

/- The bottom has been taken off: a name is not written. -/
theorem createPath_ne_render
    {names : List CStr}
    (hNames : ∀ name ∈ names, name ≠ [] ∧ SLASH ∉ name) :
    createPath names ≠ render SLASH names := by
  intro hSame
  cases names with
  | nil => exact absurd hSame (by decide)
  | cons name names =>
      rw [createPath_cons] at hSame
      have hTail :=
        components_render fun name hName =>
          hNames name (List.mem_cons_of_mem _ hName)
      rw [hSame, components_render hNames] at hTail
      have hLength := congrArg List.length hTail
      rw [List.length_cons] at hLength
      omega

theorem isFullPath_render
    (names : List CStr) :
    isFullPath (render SLASH names) = true := by
  cases names <;> rfl

theorem render_ne_nil
    (names : List CStr) :
    render SLASH names ≠ [] := by
  cases names <;> exact List.cons_ne_nil _ _

----
-- Directories
----

section Directories

variable {getCWD basePath : Option CStr}
variable {dir path : CStr}

theorem createPathStack_base
    (hFull : isFullPath path = false)
    (hPath : path ≠ []) :
    baseStack getCWD basePath (createPathStack path) =
      (workingDir getCWD basePath).map createPathStack := by
  rw [createPathStack_relative hFull]
  cases path with
  | nil => exact absurd rfl hPath
  | cons a path =>
      have hSlash : a ≠ SLASH := by
        simpa [isFullPath] using hFull
      cases hNames : components SLASH (a :: path) with
      | nil => exact absurd hNames (components_ne_nil hSlash)
      | cons name names =>
          have hName : name ≠ [SLASH] := by
            intro hSame
            have hMem : name ∈ components SLASH (a :: path) := by
              rw [hNames]
              exact List.mem_cons_self
            apply (mem_components hMem).2
            rw [hSame]
            exact List.mem_cons_self
          unfold baseStack workingDir
          rw [if_pos (by simpa using hName)]
          split_ifs <;> rfl

/- The names before those of the path, and then its own. -/
theorem components_joined :
    components SLASH (joined dir path) =
      baseNames dir path ++ components SLASH path := by
  unfold joined baseNames
  split_ifs with hFull
  · rfl
  · exact components_append SLASH dir path

theorem expandDots_eq
    (hPath : path ≠ [])
    (hDir : workingDir getCWD basePath = some dir)
    (hFullDir : isFullPath dir = true) :
    expandDots getCWD basePath (some path) =
      createPath
        (resolve ([SLASH] :: baseNames dir path)
          ((components SLASH path).map move)) := by
  unfold expandDots baseNames
  simp only [if_neg hPath]
  by_cases hFull : isFullPath path = true
  · rw [createPathStack_full hFull, if_pos hFull]
    have hBase :
        baseStack getCWD basePath
            ([SLASH] :: components SLASH path) =
          some [] := by
      simp [baseStack]
    rw [hBase]
    exact congrArg createPath (resolveStack_eq [] _)
  · have hRelative := Bool.eq_false_iff.mpr hFull
    rw [createPathStack_base hRelative hPath, hDir,
      createPathStack_relative hRelative, if_neg hFull,
      Option.map_some, createPathStack_full hFullDir]
    exact congrArg createPath (resolveStack_eq _ _)

/- There is one normalisation. -/
theorem normalised_iff
    {result : CStr} :
    Normalised dir path result ↔
      result =
        render SLASH
          (resolve []
            ((components SLASH (joined dir path)).map
              move)) := by
  constructor
  · rintro ⟨hFull, _, hReached⟩
    rw [← hReached]
    exact hFull
  · rintro rfl
    have hNames :=
      components_render fun name hName =>
        mem_components
          (@mem_resolve_move
            (components SLASH (joined dir path)) name
            hName).1
    exact
      { full := by rw [hNames]
        plain := by
          intro name hName
          rw [hNames] at hName
          exact (mem_resolve_move hName).2
        reached := hNames }

/- What is left of the names before those of the path. -/
theorem expandDots_below
    (hPath : path ≠ [])
    (hDir : workingDir getCWD basePath = some dir)
    (hFullDir : isFullPath dir = true)
    (hBelow :
      climb ((components SLASH path).map move) ≤
        (baseNames dir path).length) :
    expandDots getCWD basePath (some path) =
      render SLASH
        ((baseNames dir path).take
            ((baseNames dir path).length -
              climb ((components SLASH path).map move)) ++
          resolve [] ((components SLASH path).map move)) := by
  rw [expandDots_eq hPath hDir hFullDir, resolve_eq,
    List.length_cons, Nat.succ_sub hBelow, List.take_succ_cons,
    List.cons_append, createPath_cons]

/- The mark of the root is taken away with the names. -/
theorem expandDots_above
    (hPath : path ≠ [])
    (hDir : workingDir getCWD basePath = some dir)
    (hFullDir : isFullPath dir = true)
    (hAbove :
      (baseNames dir path).length <
        climb ((components SLASH path).map move)) :
    expandDots getCWD basePath (some path) =
      createPath
        (resolve [] ((components SLASH path).map move)) := by
  rw [expandDots_eq hPath hDir hFullDir, resolve_eq,
    List.length_cons, Nat.sub_eq_zero_of_le hAbove,
    List.take_zero, List.nil_append]

/- What normalisation leaves of them. -/
theorem resolve_joined :
    resolve [] ((components SLASH (joined dir path)).map move) =
      (resolve [] ((baseNames dir path).map move)).take
          ((resolve []
              ((baseNames dir path).map move)).length -
            climb ((components SLASH path).map move)) ++
        resolve [] ((components SLASH path).map move) := by
  rw [components_joined, List.map_append, resolve_append]
  exact resolve_eq _ _

theorem length_resolve_base
    (dir path : CStr) :
    (resolve [] ((baseNames dir path).map move)).length ≤
      (baseNames dir path).length := by
  have hLength :=
    length_resolve_le [] ((baseNames dir path).map move)
  rw [List.length_map, List.length_nil, Nat.zero_add] at hLength
  exact hLength

theorem mem_baseNames
    {name : CStr}
    (hName : name ∈ baseNames dir path) :
    name ≠ [] ∧ SLASH ∉ name := by
  unfold baseNames at hName
  split_ifs at hName with hFull
  · exact absurd hName List.not_mem_nil
  · exact mem_components hName

/- Dots in front of the path are not taken away. -/
theorem take_base_iff
    {climbed : Nat}
    (hBelow : climbed ≤ (baseNames dir path).length) :
    (baseNames dir path).take
          ((baseNames dir path).length - climbed) =
        (resolve [] ((baseNames dir path).map move)).take
          ((resolve []
              ((baseNames dir path).map move)).length -
            climbed) ↔
      (climbed < (baseNames dir path).length →
        ∀ name ∈ baseNames dir path, IsPlain name) := by
  constructor
  · intro hSame hLess
    apply Classical.byContradiction
    intro hDots
    have hShort := length_resolve_move hDots
    have hLength := congrArg List.length hSame
    rw [List.length_take, List.length_take] at hLength
    omega
  · intro hPlain
    by_cases hLess : climbed < (baseNames dir path).length
    · rw [resolve_plain [] (hPlain hLess), List.nil_append]
    · have hShort := length_resolve_base dir path
      have hNone :
          (resolve [] ((baseNames dir path).map move)).length -
              climbed =
            0 := by
        omega
      have hAll :
          (baseNames dir path).length - climbed = 0 := by
        omega
      rw [hNone, hAll, List.take_zero, List.take_zero]

/- A normal path is its own normalisation. -/
theorem expandDots_render
    {names : List CStr}
    (hDir : workingDir getCWD basePath = some dir)
    (hFullDir : isFullPath dir = true)
    (hNames : ∀ name ∈ names, name ≠ [] ∧ SLASH ∉ name)
    (hPlain : ∀ name ∈ names, IsPlain name) :
    expandDots getCWD basePath (some (render SLASH names)) =
      render SLASH names := by
  have hBase : baseNames dir (render SLASH names) = [] :=
    if_pos (isFullPath_render names)
  rw [expandDots_eq (render_ne_nil names) hDir hFullDir, hBase,
    components_render hNames, resolve_plain _ hPlain]
  exact createPath_cons [SLASH] names

/-
  For a working directory that is a full path and a path that
  is not empty, the result is the normalisation of the joined
  path, and expanding it again changes nothing, if and only
  if the path never climbs above the root, and the directory
  has no dot names or is climbed to the root.
-/
theorem expandDots_iff
    (hPath : path ≠ [])
    (hDir : workingDir getCWD basePath = some dir)
    (hFullDir : isFullPath dir = true) :
    Normalises getCWD basePath dir path ↔
      StaysBelow dir path := by
  have hOwn :
      ∀ name ∈ resolve [] ((components SLASH path).map move),
        name ≠ [] ∧ SLASH ∉ name :=
    fun name hName =>
      mem_components (mem_resolve_move hName).1
  have hNormal :
      ∀ name ∈
          resolve []
            ((components SLASH (joined dir path)).map move),
        name ≠ [] ∧ SLASH ∉ name :=
    fun name hName =>
      mem_components (mem_resolve_move hName).1
  constructor
  · rintro ⟨hNormalised, _⟩
    have hResult := normalised_iff.mp hNormalised
    have hBelow :
        climb ((components SLASH path).map move) ≤
          (baseNames dir path).length := by
      apply Classical.byContradiction
      intro hAbove
      have hShort := length_resolve_base dir path
      have hNone :
          (resolve [] ((baseNames dir path).map move)).length -
              climb ((components SLASH path).map move) =
            0 := by
        omega
      rw [expandDots_above hPath hDir hFullDir (by omega),
        resolve_joined, hNone, List.take_zero,
        List.nil_append] at hResult
      exact createPath_ne_render hOwn hResult
    refine ⟨hBelow, (take_base_iff hBelow).mp ?_⟩
    rw [expandDots_below hPath hDir hFullDir hBelow] at hResult
    have hNames :
        ∀ name ∈
            (baseNames dir path).take
                ((baseNames dir path).length -
                  climb ((components SLASH path).map move)) ++
              resolve [] ((components SLASH path).map move),
          name ≠ [] ∧ SLASH ∉ name := by
      intro name hName
      rcases List.mem_append.mp hName with hBase | hHere
      · exact mem_baseNames (List.mem_of_mem_take hBase)
      · exact hOwn name hHere
    have hSame := render_injective hNames hNormal hResult
    rw [resolve_joined] at hSame
    exact List.append_cancel_right hSame
  · rintro ⟨hBelow, hPlain⟩
    have hResult :
        expandDots getCWD basePath (some path) =
          render SLASH
            (resolve []
              ((components SLASH (joined dir path)).map
                move)) := by
      rw [expandDots_below hPath hDir hFullDir hBelow,
        resolve_joined, (take_base_iff hBelow).mpr hPlain]
    refine ⟨normalised_iff.mpr hResult, ?_⟩
    rw [hResult]
    exact
      expandDots_render hDir hFullDir hNormal
        fun name hName => (mem_resolve_move hName).2

end Directories

/- From `/home/x`, the path `../y/./z`. -/
theorem expandDots_sibling :
    Normalises none
        (some [0x2F, 0x68, 0x6F, 0x6D, 0x65, 0x2F, 0x78])
        [0x2F, 0x68, 0x6F, 0x6D, 0x65, 0x2F, 0x78]
        [0x2E, 0x2E, 0x2F, 0x79, 0x2F, 0x2E, 0x2F, 0x7A] ↔
      StaysBelow
        [0x2F, 0x68, 0x6F, 0x6D, 0x65, 0x2F, 0x78]
        [0x2E, 0x2E, 0x2F, 0x79, 0x2F, 0x2E, 0x2F, 0x7A] :=
  expandDots_iff (by decide) rfl rfl

/- From the root, the path `/../a` leads to the root. -/
theorem not_normalises :
    ¬ Normalises (some [0x2F]) none
        [0x2F] [0x2F, 0x2E, 0x2E, 0x2F, 0x61] := by
  intro hNormalises
  exact absurd hNormalises.normal.reached (by decide)

end Core

end Ydsh
