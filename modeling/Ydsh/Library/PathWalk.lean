import Mathlib.Data.List.Basic
import Mathlib.Data.List.Induction

/-
  Paths through a tree as texts with a separator, and the
  walks they describe: staying at a node, going up, and
  entering a child.  At the root, going up stays.

  Directory trees may have symbolic links.  A link stands for its target, and the walk goes on behind
  it.  A directory's place are the names from the root to it.

  Main declarations:
    * `components`
    * `resolve`
    * `climb`
    * `resolve_eq`
    * `components_render`
    * `DirectoryTree`
    * `DirectoryTree.walk`
    * `DirectoryTree.walk_into`
    * `DirectoryTree.walk_directory`
-/

----
-- Walks
----

namespace Ydsh

namespace Library

/- One step of a walk. -/
inductive Move (ν : Type) where
  | stay
  | up
  | into (name : ν)
deriving Repr, DecidableEq

variable {ν : Type}

/- Where a walk from a node ends, the root being no name. -/
def resolve : List ν → List (Move ν) → List ν
  | place, [] => place
  | place, .stay :: moves => resolve place moves
  | place, .up :: moves => resolve place.dropLast moves
  | place, .into name :: moves =>
      resolve (place ++ [name]) moves

/- How far above its start a walk goes at most. -/
def climb : List (Move ν) → Nat
  | [] => 0
  | .stay :: moves => climb moves
  | .up :: moves => climb moves + 1
  | .into _ :: moves => climb moves - 1

theorem resolve_append
    (place : List ν)
    (first second : List (Move ν)) :
    resolve place (first ++ second) =
      resolve (resolve place first) second := by
  induction first generalizing place with
  | nil => rfl
  | cons move first ih =>
      cases move <;> exact ih _

/-
  A walk takes the names it climbs off its start, and then
  adds what it would add from the root.
-/
theorem resolve_eq
    (place : List ν)
    (moves : List (Move ν)) :
    resolve place moves =
      place.take (place.length - climb moves) ++
        resolve [] moves := by
  induction moves generalizing place with
  | nil => simp [resolve, climb]
  | cons move moves ih =>
      cases move with
      | stay => exact ih place
      | up =>
          have hTake :
              place.dropLast.take
                  (place.dropLast.length - climb moves) =
                place.take
                  (place.length - (climb moves + 1)) := by
            rw [List.dropLast_eq_take, List.take_take,
              List.length_take]
            congr 1
            omega
          have hStep := ih place.dropLast
          rw [hTake] at hStep
          exact hStep
      | into name =>
          have hFrom := ih (place ++ [name])
          have hRoot := ih [name]
          unfold resolve climb
          rw [hFrom, List.nil_append, hRoot,
            ← List.append_assoc]
          congr 1
          by_cases hZero : climb moves = 0
          · rw [hZero, Nat.sub_zero, Nat.sub_zero,
              Nat.sub_zero, List.take_length, List.take_length,
              List.take_length]
          · have hOver :
                (place ++ [name]).length - climb moves ≤
                  place.length := by
              rw [List.length_append, List.length_singleton]
              omega
            have hNone : [name].length - climb moves = 0 := by
              rw [List.length_singleton]
              omega
            rw [hNone, List.take_append_of_le_length hOver,
              List.take_zero, List.append_nil,
              List.length_append, List.length_singleton]
            congr 1
            omega

theorem resolve_into
    (place names : List ν) :
    resolve place (names.map Move.into) = place ++ names := by
  induction names generalizing place with
  | nil => simp [resolve]
  | cons name names ih =>
      rw [List.map_cons, resolve, ih,
        List.append_assoc, List.singleton_append]

theorem length_resolve_le
    (place : List ν)
    (moves : List (Move ν)) :
    (resolve place moves).length ≤
      place.length + moves.length := by
  induction moves generalizing place with
  | nil => exact Nat.le_refl _
  | cons move moves ih =>
      rw [List.length_cons]
      cases move with
      | stay =>
          have hStep := ih place
          unfold resolve
          omega
      | up =>
          have hStep := ih place.dropLast
          rw [List.length_dropLast] at hStep
          unfold resolve
          omega
      | into name =>
          have hStep := ih (place ++ [name])
          rw [List.length_append, List.length_singleton] at hStep
          unfold resolve
          omega

/- Only a walk that enters at each step is as deep as long. -/
theorem length_resolve_lt
    (place : List ν)
    {moves : List (Move ν)}
    {move : Move ν}
    (hMove : move ∈ moves)
    (hOther : ∀ name, move ≠ .into name) :
    (resolve place moves).length <
      place.length + moves.length := by
  rcases List.append_of_mem hMove with ⟨first, second, rfl⟩
  have hFirst := length_resolve_le place first
  have hSecond :
      (resolve (resolve place first)
          (move :: second)).length ≤
        (resolve place first).length + second.length := by
    cases move with
    | stay =>
        have hStay :=
          length_resolve_le (resolve place first) second
        simpa only [resolve] using hStay
    | up =>
        have hUp :=
          length_resolve_le (resolve place first).dropLast
            second
        rw [List.length_dropLast] at hUp
        simp only [resolve]
        omega
    | into name => exact absurd rfl (hOther name)
  rw [resolve_append, List.length_append, List.length_cons]
  omega

/- The end of a walk consists of names it entered. -/
theorem mem_resolve
    {place : List ν}
    {moves : List (Move ν)}
    {name : ν}
    (hName : name ∈ resolve place moves) :
    name ∈ place ∨ Move.into name ∈ moves := by
  induction moves generalizing place with
  | nil => exact Or.inl hName
  | cons move moves ih =>
      cases move with
      | stay =>
          exact
            (ih hName).imp_right
              (List.mem_cons_of_mem _)
      | up =>
          rcases ih hName with hPlace | hMoves
          · exact Or.inl (List.dropLast_subset _ hPlace)
          · exact Or.inr (List.mem_cons_of_mem _ hMoves)
      | into entered =>
          rcases ih hName with hPlace | hMoves
          · rcases List.mem_append.mp hPlace with hPlace | hHere
            · exact Or.inl hPlace
            · rw [List.mem_singleton.mp hHere]
              exact Or.inr List.mem_cons_self
          · exact Or.inr (List.mem_cons_of_mem _ hMoves)

----
-- Texts of paths
----

variable {α : Type} [DecidableEq α]

/- The names in a text, those without a letter left out. -/
def components (slash : α) (path : List α) : List (List α) :=
  (path.splitOn slash).filter (· ≠ [])

/- The text of a path from the root. -/
def render (slash : α) : List (List α) → List α
  | [] => [slash]
  | name :: names =>
      slash :: (name ++ names.flatMap fun next => slash :: next)

variable {slash : α}

theorem components_append
    (slash : α)
    (first second : List α) :
    components slash (first ++ slash :: second) =
      components slash first ++ components slash second := by
  unfold components
  rw [List.splitOn_append_cons_self, List.filter_append]

theorem components_slash
    (path : List α) :
    components slash (slash :: path) =
      components slash path := by
  have hNil : components slash ([] : List α) = [] := rfl
  have hSplit := components_append slash [] path
  rw [hNil, List.nil_append, List.nil_append] at hSplit
  exact hSplit

theorem components_of_not_mem
    {name : List α}
    (hName : name ≠ [])
    (hSlash : slash ∉ name) :
    components slash name = [name] := by
  unfold components
  rw [List.splitOn_eq_singleton hSlash]
  exact List.filter_cons_of_pos (by simpa using hName)

theorem not_mem_of_mem_splitOn
    {path piece : List α}
    (hPiece : piece ∈ path.splitOn slash) :
    slash ∉ piece := by
  induction path generalizing piece with
  | nil =>
      rw [List.splitOn_nil, List.mem_singleton] at hPiece
      rw [hPiece]
      exact List.not_mem_nil
  | cons a path ih =>
      rw [List.splitOn_cons_eq_if_modifyHead] at hPiece
      by_cases hSlash : a = slash
      · rw [if_pos (by simpa using hSlash)] at hPiece
        rcases List.mem_cons.mp hPiece with rfl | hPiece
        · exact List.not_mem_nil
        · exact ih hPiece
      · rw [if_neg (by simpa using hSlash)] at hPiece
        cases hSplit : path.splitOn slash with
        | nil => exact absurd hSplit (List.splitOn_ne_nil _ _)
        | cons first more =>
            rw [hSplit] at hPiece ih
            rw [List.modifyHead_cons] at hPiece
            rcases List.mem_cons.mp hPiece with rfl | hPiece
            · have hFirst :=
                ih List.mem_cons_self
              rw [List.mem_cons, not_or]
              exact ⟨Ne.symm hSlash, hFirst⟩
            · exact
                ih
                  (List.mem_cons_of_mem _ hPiece)

theorem mem_components
    {path name : List α}
    (hName : name ∈ components slash path) :
    name ≠ [] ∧ slash ∉ name := by
  rcases List.mem_filter.mp hName with ⟨hPiece, hLetters⟩
  exact
    ⟨by simpa using hLetters, not_mem_of_mem_splitOn hPiece⟩

theorem components_ne_nil
    {a : α}
    {path : List α}
    (hSlash : a ≠ slash) :
    components slash (a :: path) ≠ [] := by
  have hSplit :
      ∃ piece pieces,
        (a :: path).splitOn slash = (a :: piece) :: pieces := by
    rw [List.splitOn_cons_eq_if_modifyHead,
      if_neg (by simpa using hSlash)]
    cases hMore : path.splitOn slash with
    | nil => exact absurd hMore (List.splitOn_ne_nil _ _)
    | cons piece pieces => exact ⟨piece, pieces, rfl⟩
  rcases hSplit with ⟨piece, pieces, hSplit⟩
  unfold components
  rw [hSplit, List.filter_cons_of_pos (by simp)]
  exact List.cons_ne_nil _ _

theorem components_flatMap
    {name : List α}
    {names : List (List α)}
    (hNames :
      ∀ other ∈ name :: names, other ≠ [] ∧ slash ∉ other) :
    components slash
        (name ++ names.flatMap fun name => slash :: name) =
      name :: names := by
  induction names generalizing name with
  | nil =>
      rcases hNames name List.mem_cons_self with
        ⟨hLetters, hSlash⟩
      rw [List.flatMap_nil, List.append_nil]
      exact components_of_not_mem hLetters hSlash
  | cons next names ih =>
      rcases hNames name List.mem_cons_self with
        ⟨hLetters, hSlash⟩
      have hMore :=
        ih fun other hOther =>
          hNames other (List.mem_cons_of_mem _ hOther)
      rw [List.flatMap_cons, List.cons_append,
        components_append, hMore,
        components_of_not_mem hLetters hSlash,
        List.singleton_append]

/- The names of the text of a path are those of the path. -/
theorem components_render
    {names : List (List α)}
    (hNames : ∀ name ∈ names, name ≠ [] ∧ slash ∉ name) :
    components slash (render slash names) = names := by
  cases names with
  | nil => exact components_slash []
  | cons name names =>
      unfold render
      rw [components_slash, components_flatMap hNames]

theorem render_injective
    {first second : List (List α)}
    (hFirst : ∀ name ∈ first, name ≠ [] ∧ slash ∉ name)
    (hSecond : ∀ name ∈ second, name ≠ [] ∧ slash ∉ name)
    (hSame : render slash first = render slash second) :
    first = second := by
  rw [← components_render hFirst, hSame,
    components_render hSecond]

end Library

end Ydsh

namespace Ydsh

namespace Library

inductive Entry (ν : Type) where
  | directory
  | file
  | link (absolute : Bool) (target : List (Move ν))

/- Only directories have entries. -/
structure DirectoryTree (ν : Type) where
  entry : List ν → Option (Entry ν)
  root : entry [] = some .directory
  parent :
    ∀ place name, (entry (place ++ [name])).isSome →
      entry place = some .directory

namespace DirectoryTree

variable {ν : Type}

/- A walk to a directory, where `follow` goes on from a link. -/
def walkFrom
    (tree : DirectoryTree ν)
    (follow : List ν → List (Move ν) → Option (List ν)) :
    List ν → List (Move ν) → Option (List ν)
  | place, [] => some place
  | place, .stay :: moves => tree.walkFrom follow place moves
  | place, .up :: moves =>
      tree.walkFrom follow place.dropLast moves
  | place, .into name :: moves =>
      match tree.entry (place ++ [name]) with
      | none => none
      | some .directory =>
          tree.walkFrom follow (place ++ [name]) moves
      | some .file => none
      | some (.link absolute target) =>
          follow (if absolute then [] else place)
            (target ++ moves)

/- At most `links` links are followed. -/
def walk
    (tree : DirectoryTree ν) :
    Nat → List ν → List (Move ν) → Option (List ν)
  | 0 => tree.walkFrom fun _ _ => none
  | links + 1 => tree.walkFrom (tree.walk links)

variable {tree : DirectoryTree ν}

----
-- Walks
----

theorem directory_of_append
    {place : List ν}
    (more : List ν)
    (hEntry : tree.entry (place ++ more) = some .directory) :
    tree.entry place = some .directory := by
  induction more using List.reverseRecOn with
  | nil => simpa using hEntry
  | append_singleton more name ih =>
      apply ih
      apply tree.parent (place ++ more) name
      rw [List.append_assoc, hEntry]
      rfl

theorem directory_dropLast
    {place : List ν}
    (hEntry : tree.entry place = some .directory) :
    tree.entry place.dropLast = some .directory := by
  by_cases hNil : place = []
  · rw [hNil]
    exact tree.root
  · apply directory_of_append [place.getLast hNil]
    rw [List.dropLast_append_getLast]
    exact hEntry

theorem walkFrom_into
    {follow : List ν → List (Move ν) → Option (List ν)}
    {place names : List ν}
    (hEntry : tree.entry (place ++ names) = some .directory) :
    tree.walkFrom follow place (names.map Move.into) =
      some (place ++ names) := by
  induction names generalizing place with
  | nil => simp [walkFrom]
  | cons name names ih =>
      have hRest :
          tree.entry (place ++ [name] ++ names) =
            some .directory := by
        simpa using hEntry
      rw [List.map_cons, walkFrom, directory_of_append _ hRest]
      simpa using ih hRest

/- The names of a directory's place lead to it. -/
theorem walk_into
    {place : List ν}
    (links : Nat)
    (hEntry : tree.entry place = some .directory) :
    tree.walk links [] (place.map Move.into) = some place := by
  cases links <;> exact walkFrom_into hEntry

theorem walkFrom_directory
    {follow : List ν → List (Move ν) → Option (List ν)}
    {place found : List ν}
    {moves : List (Move ν)}
    (hFollow :
      ∀ place moves found,
        tree.entry place = some .directory →
          follow place moves = some found →
          tree.entry found = some .directory)
    (hEntry : tree.entry place = some .directory)
    (hWalk : tree.walkFrom follow place moves = some found) :
    tree.entry found = some .directory := by
  induction moves generalizing place with
  | nil =>
      obtain rfl := Option.some.inj hWalk
      exact hEntry
  | cons move moves ih =>
      cases move with
      | stay => exact ih hEntry hWalk
      | up => exact ih (directory_dropLast hEntry) hWalk
      | into name =>
          rw [walkFrom] at hWalk
          rcases hChild : tree.entry (place ++ [name])
            with _ | _ | _ | ⟨absolute, target⟩
          · rw [hChild] at hWalk
            exact nomatch hWalk
          · rw [hChild] at hWalk
            exact ih hChild hWalk
          · rw [hChild] at hWalk
            exact nomatch hWalk
          · rw [hChild] at hWalk
            refine hFollow _ _ _ ?_ hWalk
            cases absolute with
            | true => exact tree.root
            | false => exact hEntry

/- A walk from a directory ends at a directory. -/
theorem walk_directory
    {links : Nat}
    {place found : List ν}
    {moves : List (Move ν)}
    (hEntry : tree.entry place = some .directory)
    (hWalk : tree.walk links place moves = some found) :
    tree.entry found = some .directory := by
  induction links generalizing place moves found with
  | zero =>
      apply walkFrom_directory _ hEntry hWalk
      intro place moves found hPlace hNone
      exact nomatch hNone
  | succ links ih =>
      apply walkFrom_directory _ hEntry hWalk
      intro place moves found hPlace hFound
      exact ih hPlace hFound

end DirectoryTree

end Library

end Ydsh
