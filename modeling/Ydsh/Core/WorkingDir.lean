import Ydsh.Core.ExpandDots
import Ydsh.Library.PathWalk

/-
  The working directory of a shell: the process's own, the one
  the shell keeps by its name, and the variable `PWD`.

  Main declarations:
    * `changeWorkingDir`
    * `Consistent`
    * `changeWorkingDir_kept`
    * `workingDir_consistent`
-/

----
-- The Kernel
----

namespace Ydsh

namespace Core

open Library

/- The names in a directory. -/
structure FileTree extends DirectoryTree CStr where
  names :
    ∀ place name, (entry (place ++ [name])).isSome →
      (name ≠ [] ∧ SLASH ∉ name) ∧ IsPlain name

/- The directory that a path names, seen from another one. -/
def FileTree.find
    (tree : FileTree)
    (links : Nat)
    (cwd : List CStr)
    (path : CStr) : Option (List CStr) :=
  if path = [] then none
  else
    tree.walk links (if isFullPath path then [] else cwd)
      ((components SLASH path).map move)

/- It may be refused for other reasons, such as permissions. -/
def chdir
    (tree : FileTree)
    (links : Nat)
    (refused : Bool)
    (cwd : List CStr)
    (path : CStr) : Option (List CStr) :=
  if refused then none else tree.find links cwd path

def getCWD (cwd : List CStr) : CStr :=
  render SLASH cwd

structure Shell where
  cwd : List CStr
  logicalWorkingDir : CStr
  pwd : Option CStr
  oldpwd : Option CStr

structure Call where
  dest : List UInt8
  useLogical : Bool
  refused : Bool

/- Where `chdir` is tried, and what it is tried with. -/
def actualDest
    (shell : Shell)
    (call : Call) : CStr :=
  if call.useLogical then
    expandDots (some (getCWD shell.cwd))
      (some shell.logicalWorkingDir) (some call.dest)
  else call.dest

def changeWorkingDir
    (tree : FileTree)
    (links : Nat)
    (shell : Shell)
    (call : Call) : Bool × Shell :=
  if call.dest.contains 0 then (false, shell)
  else
    let oldpwd := some (shell.pwd.getD [])
    if call.dest = [] then
      (true, { shell with oldpwd := oldpwd })
    else
      match
        chdir tree links call.refused shell.cwd
          (actualDest shell call)
      with
      | none => (false, shell)
      | some cwd =>
          let pwd :=
            if call.useLogical then actualDest shell call
            else getCWD cwd
          (true, ⟨cwd, pwd, some pwd, oldpwd⟩)

/- One call after the other. -/
def runCalls
    (tree : FileTree)
    (links : Nat) : Shell → List Call → Shell
  | shell, [] => shell
  | shell, call :: calls =>
      runCalls tree links
        (changeWorkingDir tree links shell call).2 calls

----
-- Consistency
----

/- A full path without dot names and empty names. -/
structure IsNormal (path : CStr) : Prop where
  full : path = render SLASH (components SLASH path)
  plain : ∀ name ∈ components SLASH path, IsPlain name

/- The three working directories are the same. -/
structure Consistent
    (tree : FileTree)
    (links : Nat)
    (shell : Shell) : Prop where
  normal : IsNormal shell.logicalWorkingDir
  same : shell.pwd = some shell.logicalWorkingDir
  named :
    tree.find links shell.cwd shell.logicalWorkingDir =
      some shell.cwd

/- What a call leaves behind. -/
structure Kept
    (tree : FileTree)
    (links : Nat)
    (shell : Shell)
    (ret : Bool × Shell) : Prop where
  changed :
    ret.1 = true →
      Consistent tree links ret.2 ∧ ret.2.oldpwd = shell.pwd
  unchanged : ret.1 = false → ret.2 = shell

theorem isNormal_render
    {names : List CStr}
    (hNames :
      ∀ name ∈ names,
        (name ≠ [] ∧ SLASH ∉ name) ∧ IsPlain name) :
    IsNormal (render SLASH names) := by
  have hComponents :=
    components_render fun name hName => (hNames name hName).1
  constructor
  · rw [hComponents]
  · intro name hName
    rw [hComponents] at hName
    exact (hNames name hName).2

theorem IsNormal.isFullPath
    {path : CStr}
    (hNormal : IsNormal path) :
    Core.isFullPath path = true := by
  rw [hNormal.full]
  exact isFullPath_render _

/- Dropping the bottom of a stack leaves a normal path. -/
theorem createPath_normal
    {stack : List CStr}
    (hStack :
      ∀ name ∈ stack.tail,
        (name ≠ [] ∧ SLASH ∉ name) ∧ IsPlain name) :
    createPath stack = [] ∨ IsNormal (createPath stack) := by
  cases stack with
  | nil => exact Or.inl rfl
  | cons bottom names =>
      rw [createPath_cons]
      exact Or.inr (isNormal_render hStack)

theorem plain_of_mem_resolve
    {path name : CStr}
    (hName :
      name ∈ resolve [] ((components SLASH path).map move)) :
    (name ≠ [] ∧ SLASH ∉ name) ∧ IsPlain name := by
  rcases mem_resolve_move hName with ⟨hMem, hPlain⟩
  exact ⟨mem_components hMem, hPlain⟩

/-
  From a normal directory, the expansion of a path is normal,
  or it is empty, when the path climbs above the root.
-/
theorem expandDots_normal
    {cwd : Option CStr}
    {dir path : CStr}
    (hDir : IsNormal dir)
    (hPath : path ≠ []) :
    expandDots cwd (some dir) (some path) = [] ∨
      IsNormal (expandDots cwd (some dir) (some path)) := by
  have hWorking : workingDir cwd (some dir) = some dir := by
    simp [workingDir, hDir.isFullPath]
  have hBase :
      ∀ name ∈ baseNames dir path,
        (name ≠ [] ∧ SLASH ∉ name) ∧ IsPlain name := by
    intro name hName
    refine ⟨mem_baseNames hName, ?_⟩
    unfold baseNames at hName
    by_cases hFull : isFullPath path = true
    · rw [if_pos hFull] at hName
      exact absurd hName List.not_mem_nil
    · rw [if_neg hFull] at hName
      exact hDir.plain name hName
  by_cases hBelow :
      climb ((components SLASH path).map move) ≤
        (baseNames dir path).length
  · rw [expandDots_below hPath hWorking hDir.isFullPath hBelow]
    refine Or.inr (isNormal_render ?_)
    intro name hName
    rcases List.mem_append.1 hName with hOld | hOwn
    · exact hBase name (List.mem_of_mem_take hOld)
    · exact plain_of_mem_resolve hOwn
  · rw [expandDots_above hPath hWorking hDir.isFullPath
      (Nat.lt_of_not_le hBelow)]
    apply createPath_normal
    intro name hName
    exact plain_of_mem_resolve (List.mem_of_mem_tail hName)

section Places

variable {tree : FileTree} {links : Nat}

theorem names_of_directory
    {place : List CStr}
    (hEntry : tree.entry place = some .directory) :
    ∀ name ∈ place,
      (name ≠ [] ∧ SLASH ∉ name) ∧ IsPlain name := by
  induction place using List.reverseRecOn with
  | nil =>
      intro name hName
      exact absurd hName List.not_mem_nil
  | append_singleton place last ih =>
      intro name hName
      rcases List.mem_append.1 hName with hOld | hLast
      · refine ih ?_ name hOld
        exact DirectoryTree.directory_of_append [last] hEntry
      · rw [List.mem_singleton.1 hLast]
        apply tree.names place last
        rw [hEntry]
        rfl

/- The path that the kernel gives is normal, and names the
directory. -/
theorem getCWD_normal
    {cwd : List CStr}
    (hEntry : tree.entry cwd = some .directory) :
    IsNormal (getCWD cwd) :=
  isNormal_render (names_of_directory hEntry)

theorem find_full
    {cwd other : List CStr}
    {path : CStr}
    (hFull : isFullPath path = true) :
    tree.find links cwd path = tree.find links other path := by
  unfold FileTree.find
  rw [if_pos hFull, if_pos hFull]

theorem find_getCWD
    {cwd other : List CStr}
    (hEntry : tree.entry cwd = some .directory) :
    tree.find links other (getCWD cwd) = some cwd := by
  have hNames := names_of_directory hEntry
  have hMoves :
      (components SLASH (getCWD cwd)).map move =
        cwd.map Move.into := by
    unfold getCWD
    rw [components_render fun name hName =>
      (hNames name hName).1]
    apply List.map_congr_left
    intro name hName
    unfold move
    rw [if_neg (hNames name hName).2.1,
      if_neg (hNames name hName).2.2]
  have hFull : isFullPath (getCWD cwd) = true :=
    isFullPath_render cwd
  have hNil : getCWD cwd ≠ [] := render_ne_nil cwd
  unfold FileTree.find
  rw [if_neg hNil, if_pos hFull, hMoves]
  exact DirectoryTree.walk_into links hEntry

theorem find_directory
    {cwd found : List CStr}
    {path : CStr}
    (hEntry : tree.entry cwd = some .directory)
    (hFind : tree.find links cwd path = some found) :
    tree.entry found = some .directory := by
  unfold FileTree.find at hFind
  by_cases hNil : path = []
  · rw [if_pos hNil] at hFind
    exact nomatch hFind
  · rw [if_neg hNil] at hFind
    refine DirectoryTree.walk_directory ?_ hFind
    by_cases hFull : isFullPath path = true
    · rw [if_pos hFull]
      exact tree.root
    · rw [if_neg hFull]
      exact hEntry

theorem Consistent.directory
    {shell : Shell}
    (hConsistent : Consistent tree links shell) :
    tree.entry shell.cwd = some .directory := by
  have hNamed := hConsistent.named
  have hFull := hConsistent.normal.isFullPath
  rw [@find_full tree links shell.cwd [] _ hFull] at hNamed
  exact find_directory tree.root hNamed

end Places

----
-- Calls
----

section Calls

variable {tree : FileTree} {links : Nat} {shell : Shell}

theorem Kept.of_false : Kept tree links shell (false, shell) :=
  { changed := fun hTrue => absurd hTrue Bool.false_ne_true
    unchanged := fun _ => rfl }

theorem Kept.of_true
    {shell' : Shell}
    (hConsistent : Consistent tree links shell')
    (hOldpwd : shell'.oldpwd = shell.pwd) :
    Kept tree links shell (true, shell') :=
  { changed := fun _ => ⟨hConsistent, hOldpwd⟩
    unchanged := fun hFalse =>
      absurd hFalse.symm Bool.false_ne_true }

/- What is tried in the logical way is a normal path. -/
theorem actualDest_normal
    {call : Call}
    {cwd : List CStr}
    (hConsistent : Consistent tree links shell)
    (hDest : call.dest ≠ [])
    (hLogical : call.useLogical = true)
    (hFind :
      tree.find links shell.cwd (actualDest shell call) =
        some cwd) :
    IsNormal (actualDest shell call) := by
  unfold actualDest at hFind ⊢
  rw [if_pos hLogical] at hFind ⊢
  rcases expandDots_normal hConsistent.normal hDest
    with hEmpty | hNormal
  · rw [hEmpty] at hFind
    exact nomatch hFind
  · exact hNormal

/-
  A call that succeeds leaves the three directories the same,
  and a call that fails changes nothing.
-/
theorem changeWorkingDir_kept
    (hConsistent : Consistent tree links shell)
    (call : Call) :
    Kept tree links shell
      (changeWorkingDir tree links shell call) := by
  have hOldpwd : some (shell.pwd.getD []) = shell.pwd := by
    rw [hConsistent.same]
    rfl
  unfold changeWorkingDir
  by_cases hNull : call.dest.contains 0 = true
  · rw [if_pos hNull]
    exact Kept.of_false
  rw [if_neg hNull]
  dsimp only
  by_cases hDest : call.dest = []
  · rw [if_pos hDest]
    apply Kept.of_true _ hOldpwd
    exact
      ⟨hConsistent.normal, hConsistent.same, hConsistent.named⟩
  rw [if_neg hDest]
  rcases hChdir :
      chdir tree links call.refused shell.cwd
        (actualDest shell call) with _ | cwd
  · exact Kept.of_false
  have hFind :
      tree.find links shell.cwd (actualDest shell call) =
        some cwd := by
    unfold chdir at hChdir
    by_cases hRefused : call.refused = true
    · rw [if_pos hRefused] at hChdir
      exact nomatch hChdir
    · rwa [if_neg hRefused] at hChdir
  apply Kept.of_true _ hOldpwd
  by_cases hLogical : call.useLogical = true
  · have hNormal :=
      actualDest_normal hConsistent hDest hLogical hFind
    simp only [hLogical, if_true]
    refine ⟨hNormal, rfl, ?_⟩
    rw [← hFind]
    exact find_full hNormal.isFullPath
  · have hEntry := find_directory hConsistent.directory hFind
    simp only [hLogical]
    exact ⟨getCWD_normal hEntry, rfl, find_getCWD hEntry⟩

theorem runCalls_consistent
    (hConsistent : Consistent tree links shell)
    (calls : List Call) :
    Consistent tree links
      (runCalls tree links shell calls) := by
  induction calls generalizing shell with
  | nil => exact hConsistent
  | cons call calls ih =>
      have hKept := changeWorkingDir_kept hConsistent call
      apply ih
      rcases hRet :
          (changeWorkingDir tree links shell call).1
      · rw [hKept.unchanged hRet]
        exact hConsistent
      · exact (hKept.changed hRet).1

/-
  However often the directory has been changed, logically or
  not: a call that succeeds leaves the three directories the
  same, and a call that fails changes nothing.
-/
theorem workingDir_consistent
    (hConsistent : Consistent tree links shell)
    (calls : List Call)
    (call : Call) :
    Kept tree links (runCalls tree links shell calls)
      (changeWorkingDir tree links
        (runCalls tree links shell calls) call) :=
  changeWorkingDir_kept
    (runCalls_consistent hConsistent calls) call

end Calls

/- The directory `/a`, and `/l` that is a link to it. -/
def linkedTree : FileTree where
  entry
    | [] => some .directory
    | [[0x61]] => some .directory
    | [[0x6C]] => some (.link false [.into [0x61]])
    | _ => none
  root := rfl
  parent place name hSome := by
    rcases place with _ | ⟨first, rest⟩
    · rfl
    · rcases rest with _ | ⟨second, rest⟩ <;> simp at hSome
  names place name hSome := by
    rcases place with _ | ⟨first, rest⟩
    · have hName : name = [0x61] ∨ name = [0x6C] := by
        by_contra hOther
        rcases not_or.1 hOther with ⟨hFirst, hSecond⟩
        simp [hFirst, hSecond] at hSome
      rcases hName with rfl | rfl <;> decide
    · rcases rest with _ | ⟨second, rest⟩ <;> simp at hSome

/- In `/`, `cd l` and then `cd -P ..`. -/
theorem workingDir_linked :
    Kept linkedTree 40
      (runCalls linkedTree 40
        ⟨[], [SLASH], some [SLASH], none⟩
        [⟨[0x6C], true, false⟩])
      (changeWorkingDir linkedTree 40
        (runCalls linkedTree 40
          ⟨[], [SLASH], some [SLASH], none⟩
          [⟨[0x6C], true, false⟩])
        ⟨[0x2E, 0x2E], false, false⟩) :=
  workingDir_consistent
    ⟨⟨by decide, by decide⟩, rfl, by decide⟩ _ _

end Core

end Ydsh
