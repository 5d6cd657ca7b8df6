import Ydsh.Library.Faulting

/-
  The glob matcher, and the patterns as it sees them.

  A pattern is given to the matcher by an iterator.  One kind
  walks over fragments, strings with wildcards between them;
  the other over one list of symbols.

  Each loop has a bound on its rounds.  The file system is
  what `opendir`, `readdir` and `stat` answer.

  Main declarations:
    * `Pattern`
    * `FragmentIter`
    * `symbolPattern`
    * `wildMatch`
    * `matchDir`
    * `globMatch`
-/

----
-- Iterators
----

namespace Ydsh

namespace Glob

open Library

/- What the matcher asks of its iterators. -/
structure Pattern (ι : Type) where
  last : ι
  isEnd : ι → Bool
  deref : ι → Faulting UInt8
  next : ι → Faulting ι
  isAny : ι → Bool
  isZeroOrMore : ι → Bool

inductive GlobMeta where
  | ANY
  | ZERO_OR_MORE
deriving DecidableEq

def GlobMeta.toText : GlobMeta → List UInt8
  | .ANY => [0x3F]
  | .ZERO_OR_MORE => [0x2A]

----
-- Fragments
----

inductive Fragment where
  | str (value : List UInt8)
  | wildcard (kind : GlobMeta)
deriving DecidableEq

/-
  `GlobIter` and `SourceGlobIter`: the fragment, and the offset
  in it when it is a string.  The sentinel stands after the
  last fragment.
-/
structure FragmentIter where
  cur : Nat
  ptr : Option Nat
deriving DecidableEq

/- The byte a pointer into a string points at. -/
def charAt
    (value : List UInt8)
    (index : Nat) : Faulting UInt8 :=
  match value[index]? with
  | some ch => .done ch
  | none => if index = value.length then .done 0 else .fault

namespace FragmentIter

variable (frags : List Fragment)

/- Where the pointer starts in a fragment. -/
def startOf (cur : Nat) : Option Nat :=
  match frags[cur]? with
  | some (.str _) => some 0
  | _ => none

def atFragment (cur : Nat) : FragmentIter :=
  ⟨cur, startOf frags cur⟩

def begin : FragmentIter :=
  atFragment frags 0

def last : FragmentIter :=
  atFragment frags frags.length

def derefAt
    (cur index : Nat) : Faulting UInt8 :=
  match frags[cur]? with
  | some (.str value) => charAt value index
  | _ => .fault

/- `operator*` -/
def deref (it : FragmentIter) : Faulting UInt8 :=
  match it.ptr with
  | none => .done 0
  | some index => derefAt frags it.cur index

/- `operator++` -/
def next (it : FragmentIter) : Faulting FragmentIter :=
  match it.ptr with
  | none => .done (atFragment frags (it.cur + 1))
  | some index =>
      (derefAt frags it.cur (index + 1)).bind
        (fun ch =>
          if ch = 0 then
            .done (atFragment frags (it.cur + 1))
          else
            .done ⟨it.cur, some (index + 1)⟩)

def isMeta
    (kind : GlobMeta)
    (it : FragmentIter) : Bool :=
  frags[it.cur]? = some (.wildcard kind)

def pattern : Pattern FragmentIter where
  last := last frags
  isEnd it := it = last frags
  deref := deref frags
  next := next frags
  isAny := isMeta frags .ANY
  isZeroOrMore := isMeta frags .ZERO_OR_MORE

end FragmentIter

/- A byte that stands for itself, or a wildcard. -/
inductive Symbol where
  | lit (ch : UInt8)
  | wildcard (kind : GlobMeta)
deriving DecidableEq

namespace Symbol

def deref : List Symbol → Faulting UInt8
  | .lit ch :: _ => .done ch
  | _ => .done 0

def isMeta
    (kind : GlobMeta) : List Symbol → Bool
  | .wildcard found :: _ => found = kind
  | _ => false

end Symbol

/- The iterator over symbols is the rest of them. -/
def symbolPattern : Pattern (List Symbol) where
  last := []
  isEnd := List.isEmpty
  deref := Symbol.deref
  next rest := .done rest.tail
  isAny := Symbol.isMeta .ANY
  isZeroOrMore := Symbol.isMeta .ZERO_OR_MORE

/- Only the wildcards of the fragments are wildcards. -/
def Fragment.symbols : Fragment → List Symbol
  | .str value => value.map Symbol.lit
  | .wildcard kind => [.wildcard kind]

def symbolsOf (frags : List Fragment) : List Symbol :=
  frags.flatMap Fragment.symbols

end Glob

end Ydsh

----
-- Wildcards
----

namespace Ydsh

namespace Glob

open Library

def SLASH : UInt8 := 0x2F

def DOT : UInt8 := 0x2E

structure GlobMatchOption where
  TILDE : Bool
  DOTGLOB : Bool
  IGNORE_SYS_DIR : Bool
  FASTGLOB : Bool
deriving DecidableEq

inductive WildMatchResult where
  | FAILED
  | DOT
  | DOTDOT
  | MATCHED
deriving DecidableEq

variable {ι : Type}
variable (P : Pattern ι)

def isEndOrSep (it : ι) : Faulting Bool :=
  if P.isEnd it then
    .done true
  else
    (P.deref it).map (fun ch => decide (ch = SLASH))

/- The separators passed and the iterator after them. -/
def consumeSeps : Nat → ι → Faulting (Nat × ι)
  | 0, _ => .timeout
  | bound + 1, it =>
      if P.isEnd it then
        .done (0, it)
      else
        (P.deref it).bind
          (fun ch =>
            if ch = SLASH then
              (P.next it).bind
                (fun it =>
                  (consumeSeps bound it).map
                    (fun found => (found.1 + 1, found.2)))
            else
              .done (0, it))

def consumeDot (it : ι) : Faulting (Bool × ι) :=
  if P.isEnd it then
    .done (false, it)
  else
    (P.deref it).bind
      (fun ch =>
        if ch = DOT then
          (P.next it).bind
            (fun after =>
              (isEndOrSep P after).map
                (fun found =>
                  if found then (true, after) else (false, it)))
        else
          .done (false, it))

/- The second dot, the first one being matched. -/
def matchSecondDot
    (name : List UInt8)
    (old it : ι) : Faulting (Nat × ι) :=
  if name.head? = some DOT then
    (P.deref it).bind
      (fun ch =>
        if ch = DOT then
          (P.next it).bind
            (fun after =>
              if name.tail = [] then
                (isEndOrSep P after).map
                  (fun found =>
                    if found then (2, after) else (0, old))
              else
                .done (0, old))
        else
          .done (0, old))
  else
    .done (0, old)

def matchDots
    (name : List UInt8)
    (it : ι) : Faulting (Nat × ι) :=
  if name.head? = some DOT then
    (P.deref it).bind
      (fun ch =>
        if ch = DOT then
          (P.next it).bind
            (fun after =>
              if name.tail = [] then
                (isEndOrSep P after).bind
                  (fun found =>
                    if found then
                      .done (1, after)
                    else
                      matchSecondDot P name.tail it after)
              else
                matchSecondDot P name.tail it after)
        else
          .done (0, it))
  else
    .done (0, it)

/- The stars left when the name is at its end. -/
def finishMatch : Nat → ι → Faulting (WildMatchResult × ι)
  | 0, _ => .timeout
  | bound + 1, it =>
      (isEndOrSep P it).bind
        (fun found =>
          if found then
            .done (.MATCHED, it)
          else if P.isZeroOrMore it then
            (P.next it).bind (finishMatch bound)
          else
            .done (.FAILED, it))

/- The loop after the first star, with the place to go back to. -/
def matchAfterStar :
    Nat → List UInt8 → List UInt8 → ι → ι →
      Faulting (WildMatchResult × ι)
  | 0, _, _, _, _ => .timeout
  | bound + 1, [], _, _, it => finishMatch P bound it
  | bound + 1, ch :: name, cp, oldIter, it =>
      (isEndOrSep P it).bind
        (fun found =>
          if found then
            matchAfterStar bound cp cp.tail oldIter oldIter
          else
            (P.deref it).bind
              (fun c =>
                if ch = c ∨ P.isAny it = true then
                  (P.next it).bind
                    (matchAfterStar bound name cp oldIter)
                else if P.isZeroOrMore it then
                  (P.next it).bind
                    (fun after =>
                      (isEndOrSep P after).bind
                        (fun ends =>
                          if ends then
                            .done (.MATCHED, after)
                          else
                            matchAfterStar bound (ch :: name)
                              name after after))
                else
                  matchAfterStar bound cp cp.tail oldIter
                    oldIter))

/- The loop before the first star. -/
def matchBeforeStar
    (bound : Nat) :
    List UInt8 → ι → Faulting (WildMatchResult × ι)
  | [], it => finishMatch P bound it
  | ch :: name, it =>
      (isEndOrSep P it).bind
        (fun found =>
          if found then
            .done (.FAILED, it)
          else if P.isZeroOrMore it then
            matchAfterStar P bound (ch :: name) [] P.last it
          else
            (P.deref it).bind
              (fun c =>
                if ch ≠ c ∧ P.isAny it = false then
                  .done (.FAILED, it)
                else
                  (P.next it).bind
                    (matchBeforeStar bound name)))

/- A name with a leading dot is matched by a dot alone. -/
def hidesDot
    (option : GlobMatchOption)
    (it : ι) : Faulting Bool :=
  (isEndOrSep P it).bind
    (fun found =>
      if found then
        .done false
      else
        (P.deref it).map
          (fun ch => decide (ch ≠ DOT) && !option.DOTGLOB))

/- `WildCardMatcher::operator()` -/
def wildMatch
    (option : GlobMatchOption)
    (bound : Nat)
    (name : List UInt8)
    (it : ι) : Faulting (WildMatchResult × ι) :=
  if name = [DOT] ∨ name = [DOT, DOT] then
    (matchDots P name it).map
      (fun found =>
        if found.1 = 1 then
          (.DOT, found.2)
        else if found.1 = 2 then
          (.DOTDOT, found.2)
        else
          (.FAILED, found.2))
  else if name.head? = some DOT then
    (hidesDot P option it).bind
      (fun hidden =>
        if hidden then
          .done (.FAILED, it)
        else
          matchBeforeStar P bound name it)
  else
    matchBeforeStar P bound name it

----
-- Directories
----

abbrev Path := List UInt8

structure FileSystem where
  -- the entries `readdir` gives, if the directory opens
  opendir : Path → Option (List (List UInt8))
  isDirectory : Path → List UInt8 → Bool
  isSameFile : Path → Path → Bool
  preExpand : Path → Path

def ignoredDirs : List Path :=
  [[0x2F, 0x64, 0x65, 0x76], [0x2F, 0x70, 0x72, 0x6F, 0x63],
    [0x2F, 0x73, 0x79, 0x73]]

/- The path of an entry. -/
def joinPath
    (dir : Path)
    (entry : List UInt8) : Path :=
  let name := if dir = [DOT] then [] else dir
  (if name ≠ [] ∧ name.getLast? ≠ some SLASH then
      name ++ [SLASH]
    else
      name) ++
    entry

/- The separators and dots after a directory. -/
def consumeTail : Nat → Path → ι → Faulting (Path × ι)
  | 0, _, _ => .timeout
  | bound + 1, name, it =>
      (consumeSeps P bound it).bind
        (fun seps =>
          let name := if seps.1 > 0 then name ++ [SLASH] else name
          (consumeDot P seps.2).bind
            (fun dot =>
              if dot.1 then
                consumeTail bound (name ++ [DOT]) dot.2
              else
                .done (name, dot.2)))

inductive MatchStatus where
  | OK
  | LIMIT
  -- look again from the parent directory
  | UP
deriving DecidableEq

/- The status, the iterator left and the paths appended. -/
structure MatchState (ι : Type) where
  status : MatchStatus
  iter : ι
  paths : List Path

structure GlobEnv where
  fs : FileSystem
  option : GlobMatchOption
  -- the most paths the appender takes
  limit : Option Nat

/- What opens, system directories apart. -/
def entriesOf
    (env : GlobEnv)
    (dir : Path) : Option (List (List UInt8)) :=
  if env.option.IGNORE_SYS_DIR &&
      ignoredDirs.any (fun i => env.fs.isSameFile i dir) then
    none
  else
    env.fs.opendir dir

def isFull
    (env : GlobEnv)
    (paths : List Path) : Bool :=
  env.limit = some paths.length

mutual

/- `GlobMatcher::match` -/
def matchDir
    (env : GlobEnv) :
    Nat → Path → ι → List Path → Faulting (MatchState ι)
  | 0, _, _, _ => .timeout
  | bound + 1, dir, it, paths =>
      match entriesOf env dir with
      | none => .done ⟨.OK, it, paths⟩
      | some entries =>
          matchEntries env bound dir entries entries it paths

/- The `readdir` loop, with all entries for `rewinddir`. -/
def matchEntries
    (env : GlobEnv) :
    Nat → Path → List (List UInt8) → List (List UInt8) → ι →
      List Path → Faulting (MatchState ι)
  | 0, _, _, _, _, _ => .timeout
  | _ + 1, _, _, [], it, paths => .done ⟨.OK, it, paths⟩
  | bound + 1, dir, all, entry :: entries, it, paths =>
      (wildMatch P env.option bound entry it).bind
        (fun found =>
          if found.1 = .FAILED then
            matchEntries env bound dir all entries it paths
          else
            let isDir :=
              env.fs.isDirectory (joinPath dir entry) entry
            (if isDir then
                consumeTail P bound (joinPath dir entry) found.2
              else
                .done (joinPath dir entry, found.2)).bind
              (fun target =>
                if isDir && !P.isEnd target.2 then
                  if found.1 = .DOTDOT ∧
                      env.option.FASTGLOB = true then
                    .done ⟨.UP, target.2, paths⟩
                  else
                    (matchDir env bound target.1 target.2
                        paths).bind
                      (fun inner =>
                        match inner.status with
                        | .LIMIT =>
                            .done ⟨.LIMIT, it, inner.paths⟩
                        | .UP =>
                            matchEntries env bound dir all all
                              inner.iter inner.paths
                        | .OK =>
                            if found.1 = .MATCHED then
                              matchEntries env bound dir all
                                entries it inner.paths
                            else
                              .done ⟨.OK, it, inner.paths⟩)
                else if P.isEnd target.2 then
                  if isFull env paths then
                    .done ⟨.LIMIT, it, paths⟩
                  else if found.1 = .MATCHED then
                    matchEntries env bound dir all entries it
                      (paths ++ [target.1])
                  else
                    .done ⟨.OK, it, paths ++ [target.1]⟩
                else if found.1 = .MATCHED then
                  matchEntries env bound dir all entries it paths
                else
                  .done ⟨.OK, it, paths⟩))

end

----
-- Base Directories
----

def popDir (path : Path) : Path :=
  if path = [DOT] then
    [DOT, DOT]
  else if path = [DOT, DOT] then
    path ++ [SLASH, DOT, DOT]
  else
    let name := (path.reverse.takeWhile (· ≠ SLASH)).reverse
    let dir := path.take (path.length - name.length - 1)
    if SLASH ∉ path then
      [DOT]
    else if dir = [] then
      [SLASH]
    else if name.isPrefixOf [DOT, DOT] then
      -- `std::equal` compares as many bytes as the name has
      path ++ [SLASH, DOT, DOT, SLASH]
    else
      dir

/- The literal prefix, and where its last separator is. -/
def scanBase :
    Nat → ι → Path → Option ι → Faulting (Path × Option ι)
  | 0, _, _, _ => .timeout
  | bound + 1, it, baseDir, latestSep =>
      if P.isEnd it || P.isZeroOrMore it || P.isAny it then
        .done (baseDir, latestSep)
      else
        (P.deref it).bind
          (fun ch =>
            (P.next it).bind
              (fun after =>
                scanBase bound after
                  (if ch = SLASH ∧ baseDir.getLast? = some SLASH
                    then
                    baseDir
                  else
                    baseDir ++ [ch])
                  (if ch = SLASH then some it else latestSep)))

/- A relative directory is one of the base. -/
def addBase
    (base : Option Path)
    (baseDir : Path) : Path :=
  match base with
  | none => baseDir
  | some base =>
      if base.head? = some SLASH ∧ baseDir.head? ≠ some SLASH
        then
        base ++ [SLASH] ++ baseDir
      else
        baseDir

def resolveBaseDir
    (env : GlobEnv)
    (base : Option Path)
    (bound : Nat)
    (it : ι) : Faulting (Path × ι) :=
  (scanBase P bound it [] none).bind
    (fun found =>
      match found.2 with
      | none => .done (addBase base [DOT], it)
      | some sep =>
          (P.next sep).map
            (fun after =>
              let baseDir :=
                (found.1.reverse.dropWhile (· ≠ SLASH)).reverse
              (addBase base
                  (if env.option.TILDE then
                      env.fs.preExpand baseDir
                    else
                      baseDir),
                after)))

inductive GlobMatchResult where
  | MATCH
  | NOMATCH
  | LIMIT
deriving DecidableEq

def invoke
    (env : GlobEnv) :
    Nat → Path → ι → List Path →
      Faulting (GlobMatchResult × List Path)
  | 0, _, _, _ => .timeout
  | bound + 1, baseDir, it, paths =>
      (matchDir P env bound baseDir it paths).bind
        (fun state =>
          match state.status with
          | .UP =>
              invoke env bound (popDir baseDir) state.iter
                state.paths
          | .LIMIT => .done (.LIMIT, state.paths)
          | .OK =>
              if state.paths = [] then
                .done (.NOMATCH, [])
              else
                .done (.MATCH, state.paths))

/- `GlobMatcher::operator()` -/
def globMatch
    (env : GlobEnv)
    (base : Option Path)
    (bound : Nat)
    (it : ι) : Faulting (GlobMatchResult × List Path) :=
  (resolveBaseDir P env base bound it).bind
    (fun found => invoke P env bound found.1 found.2 [])

end Glob

end Ydsh
