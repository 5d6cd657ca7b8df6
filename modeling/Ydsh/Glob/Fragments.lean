import Mathlib.Data.List.Lex
import Mathlib.Data.Nat.Find
import Ydsh.Glob.Simulation

/-
  Globbing over the fragments of a command argument or of a
  source path.

  Main declarations:
    * `addGlobbingPath`
    * `resolvePathList`
    * `Exact`
    * `FragmentIter.simulates`
    * `FragmentIter.noEmpty_of_presents`
-/

----
-- Fragments of an Argument
----

namespace Ydsh

namespace Glob

open Library
open Library.Faulting

/- `CmdArgNode::addSegmentNode`, for the segments so far. -/
def addSegmentNode
    (globPathSize : Nat)
    (segs : List Fragment)
    (node : Fragment) : Nat :=
  match node with
  | .wildcard _ =>
      (if globPathSize = 0 ∧ segs ≠ [] then
          globPathSize + 1
        else
          globPathSize) +
        1
  | .str _ =>
      match segs.getLast? with
      | some (.wildcard _) => globPathSize + 1
      | _ => globPathSize

def globPathSize (segs : List Fragment) : Nat :=
  (segs.foldl
      (fun found node =>
        (addSegmentNode found.1 found.2 node,
          found.2 ++ [node]))
      (0, [])).1

abbrev SYS_LIMIT_GLOB_FRAG_NUM : Nat := 255

/- `visitCmdArgNode` of the checker: there are wildcards, and
not too many fragments. -/
def checkGlobPath (segs : List Fragment) : Bool :=
  0 < globPathSize segs &&
    globPathSize segs ≤ SYS_LIMIT_GLOB_FRAG_NUM

/- `CONCAT`: the string on the top of the stack grows. -/
def appendLast
    (stack : List Fragment)
    (value : List UInt8) : List Fragment :=
  match stack.getLast? with
  | some (.str top) => stack.dropLast ++ [.str (top ++ value)]
  | _ => stack

/-
  `visitCmdArgNode`: a string after a string is concatenated,
  any other segment is pushed.
-/
def pushSegments :
    List Fragment → Bool → List Fragment → List Fragment
  | stack, _, [] => stack
  | stack, _, .wildcard kind :: segs =>
      pushSegments (stack ++ [.wildcard kind]) false segs
  | stack, concat, .str value :: segs =>
      pushSegments
        (if concat then
            appendLast stack value
          else
            stack ++ [.str value])
        true segs

def cmdFragments (segs : List Fragment) : List Fragment :=
  pushSegments [] false segs

----
-- Command Arguments
----

def Fragment.hasNullChar : Fragment → Bool
  | .str value => (0 : UInt8) ∈ value
  | .wildcard _ => false

/- The pattern as errors show it. -/
def Fragment.toText : Fragment → List UInt8
  | .str value =>
      value.flatMap
        (fun ch =>
          if ch = 0 then [0x5C, 0x78, 0x30, 0x30] else [ch])
  | .wildcard kind => kind.toText

structure GlobbingError where
  message : String
  pattern : List UInt8
deriving DecidableEq

/- `std::string` order. -/
def sortPaths (paths : List Path) : List Path :=
  paths.mergeSort (fun x y => decide (x ≤ y))

structure CommandGlob where
  fs : FileSystem
  tilde : Bool
  dotglob : Bool
  fastglob : Bool
  nullglob : Bool

def CommandGlob.env (glob : CommandGlob) : GlobEnv where
  fs := glob.fs
  option :=
    { TILDE := glob.tilde,
      DOTGLOB := glob.dotglob,
      IGNORE_SYS_DIR := false,
      FASTGLOB := glob.fastglob }
  limit := none

variable {ι : Type}

def globbingError
    (frags : List Fragment)
    (message : String) : Except GlobbingError (List Path) :=
  .error ⟨message, frags.flatMap Fragment.toText⟩

def globbingResult
    (frags : List Fragment)
    (nullglob : Bool)
    (found : GlobMatchResult × List Path) :
    Except GlobbingError (List Path) :=
  if found.1 = .MATCH ∨ nullglob = true then
    .ok (sortPaths found.2)
  else if found.1 = .NOMATCH then
    globbingError frags "No matches for glob pattern"
  else
    globbingError frags
      "number of glob results reaches limit"

/- `VM::addGlobbingPath`: what is added to the arguments. -/
def addGlobbingPath
    (P : Pattern ι)
    (begin : ι)
    (frags : List Fragment)
    (glob : CommandGlob)
    (bound : Nat) :
    Faulting (Except GlobbingError (List Path)) :=
  if frags.any Fragment.hasNullChar then
    .done
      (globbingError frags "glob pattern has null characters")
  else
    (globMatch P glob.env none bound begin).map
      (globbingResult frags glob.nullglob)

----
-- Source Paths
----

inductive SourceError where
  | NullInPath
  | NoGlobDir (path : Path)
  | NoGlobMatch (path : Path)
  | GlobRetLimit (path : Path)
deriving DecidableEq

def endsAsDir (value : List UInt8) : Bool :=
  [SLASH].isSuffixOf value || [SLASH, DOT].isSuffixOf value ||
    [SLASH, DOT, DOT].isSuffixOf value

/- The last string that is not empty decides. -/
def isDirPattern (segs : List Fragment) : Bool :=
  match segs.reverse.dropWhile (· = .str []) with
  | .str value :: _ => endsAsDir value
  | _ => false

def concat (segs : List Fragment) : Path :=
  segs.flatMap
    (fun seg =>
      match seg with
      | .str value => value
      | .wildcard kind => kind.toText)

structure SourceGlob where
  fs : FileSystem
  tilde : Bool
  optional : Bool
  scriptDir : Path

def SourceGlob.env (glob : SourceGlob) : GlobEnv where
  fs := glob.fs
  option :=
    { TILDE := glob.tilde,
      DOTGLOB := false,
      IGNORE_SYS_DIR := true,
      FASTGLOB := true }
  limit := some 4096

def sourceResult
    (segs : List Fragment)
    (optional : Bool)
    (found : GlobMatchResult × List Path) :
    Except SourceError (List Path) :=
  if found.1 = .MATCH ∨ optional = true then
    .ok (sortPaths found.2)
  else if found.1 = .NOMATCH then
    .error (.NoGlobMatch (concat segs))
  else
    .error (.GlobRetLimit (concat segs))

/- `visitSourceListNode` and `resolvePathList`, with wildcards. -/
def resolvePathList
    (P : Pattern ι)
    (begin : ι)
    (segs : List Fragment)
    (glob : SourceGlob)
    (bound : Nat) :
    Faulting (Except SourceError (List Path)) :=
  if segs.any Fragment.hasNullChar then
    .done (.error .NullInPath)
  else if isDirPattern segs then
    .done (.error (.NoGlobDir (concat segs)))
  else
    (globMatch P glob.env (some glob.scriptDir) bound begin).map
      (sourceResult segs glob.optional)

----
-- Exactness
----

/- What an iterator presents, from where it is to the end. -/
def readAll (P : Pattern ι) :
    Nat → ι → Faulting (List Symbol)
  | 0, _ => .timeout
  | bound + 1, it =>
      if P.isEnd it then
        .done []
      else
        (if P.isAny it then
            .done (Symbol.wildcard .ANY)
          else if P.isZeroOrMore it then
            .done (Symbol.wildcard .ZERO_OR_MORE)
          else
            (P.deref it).map Symbol.lit).bind
          (fun symbol =>
            (P.next it).bind
              (fun after =>
                (readAll P bound after).map
                  (fun rest => symbol :: rest)))

/- The concatenation, with only the wildcards as wildcards. -/
def Presents (frags : List Fragment) : Prop :=
  ∃ bound,
    readAll (FragmentIter.pattern frags) bound
        (FragmentIter.begin frags) =
      .done (symbolsOf frags)

inductive GlobUse where
  | command
  | source

/- The fragments the iterator walks over. -/
def GlobUse.fragments
    (use : GlobUse)
    (segs : List Fragment) : List Fragment :=
  match use with
  | .command => cmdFragments segs
  | .source => segs

/-
  The same expansion as of the pattern with literal bytes and
  wildcards in one, and no byte read past a fragment.
-/
def SameExpansion
    (use : GlobUse)
    (segs : List Fragment) : Prop :=
  let frags := use.fragments segs
  match use with
  | .command =>
      ∀ glob bound,
        addGlobbingPath (FragmentIter.pattern frags)
            (FragmentIter.begin frags) frags glob bound =
          addGlobbingPath symbolPattern (symbolsOf segs) frags
            glob bound ∧
        addGlobbingPath (FragmentIter.pattern frags)
            (FragmentIter.begin frags) frags glob bound ≠
          .fault
  | .source =>
      ∀ glob bound,
        resolvePathList (FragmentIter.pattern frags)
            (FragmentIter.begin frags) frags glob bound =
          resolvePathList symbolPattern (symbolsOf segs) frags
            glob bound ∧
        resolvePathList (FragmentIter.pattern frags)
            (FragmentIter.begin frags) frags glob bound ≠
          .fault

def HasNull (frags : List Fragment) : Prop :=
  frags.any Fragment.hasNullChar = true

instance (frags : List Fragment) : Decidable (HasNull frags) :=
  inferInstanceAs (Decidable (_ = _))

/- There are wildcards, and no error is found before. -/
def MakesMatcher
    (use : GlobUse)
    (segs : List Fragment) : Prop :=
  checkGlobPath segs = true ∧ ¬HasNull (use.fragments segs) ∧
    match use with
    | .command => True
    | .source => isDirPattern segs = false

def Exact
    (use : GlobUse)
    (segs : List Fragment) : Prop :=
  (MakesMatcher use segs → Presents (use.fragments segs)) ∧
    (checkGlobPath segs = true → SameExpansion use segs)

def NoEmpty (frags : List Fragment) : Prop :=
  Fragment.str [] ∉ frags

----
-- Walking over Fragments
----

namespace FragmentIter

variable {frags : List Fragment}

/- On a byte of a string, on a wildcard or at the end. -/
def Valid
    (frags : List Fragment)
    (it : FragmentIter) : Prop :=
  match it.ptr with
  | some index =>
      ∃ value,
        frags[it.cur]? = some (.str value) ∧
          index < value.length
  | none =>
      it.cur ≤ frags.length ∧
        ∀ value, frags[it.cur]? ≠ some (.str value)

/- The symbols not yet passed. -/
def remaining
    (frags : List Fragment)
    (it : FragmentIter) : List Symbol :=
  match it.ptr, frags[it.cur]? with
  | some index, some (.str value) =>
      (value.drop index).map Symbol.lit ++
        symbolsOf (frags.drop (it.cur + 1))
  | _, _ => symbolsOf (frags.drop it.cur)

theorem symbolsOf_drop
    {cur : Nat}
    {frag : Fragment}
    (hGet : frags[cur]? = some frag) :
    symbolsOf (frags.drop cur) =
      frag.symbols ++ symbolsOf (frags.drop (cur + 1)) := by
  rcases List.getElem?_eq_some_iff.mp hGet with ⟨hLt, hEq⟩
  rw [List.drop_eq_getElem_cons hLt, hEq]
  rfl

theorem remaining_str
    {cur index : Nat}
    {value : List UInt8}
    (hGet : frags[cur]? = some (.str value)) :
    remaining frags ⟨cur, some index⟩ =
      (value.drop index).map Symbol.lit ++
        symbolsOf (frags.drop (cur + 1)) := by
  unfold remaining
  simp only [hGet]

theorem remaining_none (cur : Nat) :
    remaining frags ⟨cur, none⟩ =
      symbolsOf (frags.drop cur) := by
  unfold remaining
  rfl

theorem startOf_str
    {cur : Nat}
    {value : List UInt8}
    (hGet : frags[cur]? = some (.str value)) :
    atFragment frags cur = ⟨cur, some 0⟩ := by
  unfold atFragment startOf
  rw [hGet]

theorem startOf_other
    {cur : Nat}
    (hOther : ∀ value, frags[cur]? ≠ some (.str value)) :
    atFragment frags cur = ⟨cur, none⟩ := by
  unfold atFragment startOf
  cases hGet : frags[cur]? with
  | none => rfl
  | some frag =>
      cases frag with
      | str value => exact absurd hGet (hOther value)
      | wildcard kind => rfl

theorem remaining_atFragment (cur : Nat) :
    remaining frags (atFragment frags cur) =
      symbolsOf (frags.drop cur) := by
  by_cases hStr : ∃ value, frags[cur]? = some (.str value)
  · rcases hStr with ⟨value, hGet⟩
    rw [startOf_str hGet, remaining_str hGet,
      symbolsOf_drop hGet, List.drop_zero]
    rfl
  · rw [startOf_other (fun value hGet => hStr ⟨value, hGet⟩),
      remaining_none]

theorem valid_atFragment
    {cur : Nat}
    (hLe : cur ≤ frags.length)
    (hNonempty : frags[cur]? ≠ some (.str [])) :
    Valid frags (atFragment frags cur) := by
  by_cases hStr : ∃ value, frags[cur]? = some (.str value)
  · rcases hStr with ⟨value, hGet⟩
    rw [startOf_str hGet]
    refine ⟨value, hGet, ?_⟩
    apply List.length_pos_of_ne_nil
    intro hNil
    rw [hNil] at hGet
    exact hNonempty hGet
  · have hOther :
        ∀ value, frags[cur]? ≠ some (.str value) :=
      fun value hGet => hStr ⟨value, hGet⟩
    rw [startOf_other hOther]
    exact ⟨hLe, hOther⟩

theorem last_eq :
    last frags = ⟨frags.length, none⟩ := by
  unfold last
  apply startOf_other
  intro value hGet
  rw [List.getElem?_eq_none (Nat.le_refl _)] at hGet
  cases hGet

/- A place with something left is at a fragment. -/
theorem cur_lt_of_ne_last
    {it : FragmentIter}
    (hValid : Valid frags it)
    (hNe : it ≠ last frags) :
    it.cur < frags.length := by
  rcases it with ⟨cur, ptr⟩
  cases ptr with
  | none =>
      rcases Nat.lt_or_eq_of_le hValid.1 with hLt | hEq
      · exact hLt
      · apply absurd _ hNe
        rw [last_eq]
        exact congrArg (fun n => FragmentIter.mk n none) hEq
  | some index =>
      rcases hValid with ⟨value, hGet, -⟩
      exact (List.getElem?_eq_some_iff.mp hGet).1

theorem charAt_of_lt
    {value : List UInt8}
    {index : Nat}
    (hLt : index < value.length) :
    charAt value index = .done value[index] := by
  unfold charAt
  rw [List.getElem?_eq_getElem hLt]

theorem charAt_length (value : List UInt8) :
    charAt value value.length = .done 0 := by
  unfold charAt
  rw [List.getElem?_eq_none (Nat.le_refl _)]
  simp

theorem derefAt_str
    {cur : Nat}
    {value : List UInt8}
    (hGet : frags[cur]? = some (.str value))
    (index : Nat) :
    derefAt frags cur index = charAt value index := by
  unfold derefAt
  rw [hGet]

/- The symbol an iterator is at. -/
structure Looks
    (frags : List Fragment)
    (it : FragmentIter)
    (symbol : Symbol)
    (rest : List Symbol) : Prop where
  deref : deref frags it = Symbol.deref [symbol]
  isMeta :
    ∀ kind, isMeta frags kind it = Symbol.isMeta kind [symbol]
  remaining : remaining frags it = symbol :: rest

/- One step: within the fragment, or to the next one. -/
theorem next_valid
    (hNull : ¬HasNull frags)
    {it : FragmentIter}
    (hValid : Valid frags it)
    (hLt : it.cur < frags.length) :
    ∃ symbol after,
      Looks frags it symbol (remaining frags after) ∧
        next frags it = .done after ∧
        ((after.cur = it.cur ∧ Valid frags after) ∨
          after = atFragment frags (it.cur + 1)) := by
  rcases it with ⟨cur, ptr⟩
  cases ptr with
  | none =>
      rcases hValid with ⟨-, hOther⟩
      have hGet := List.getElem?_eq_getElem hLt
      cases hFrag : frags[cur] with
      | str value =>
          rw [hFrag] at hGet
          exact absurd hGet (hOther value)
      | wildcard kind =>
          rw [hFrag] at hGet
          refine
            ⟨.wildcard kind, atFragment frags (cur + 1), ?_,
              rfl, .inr rfl⟩
          constructor
          · rfl
          · intro k
            unfold FragmentIter.isMeta Symbol.isMeta
            rw [hGet]
            simp
          · rw [remaining_none, remaining_atFragment,
              symbolsOf_drop hGet]
            rfl
  | some index =>
      rcases hValid with ⟨value, hGet, hIndex⟩
      have hDrop :
          value.drop index =
            value[index] :: value.drop (index + 1) :=
        List.drop_eq_getElem_cons hIndex
      have hLooks :
          ∀ after,
            remaining frags after =
                (value.drop (index + 1)).map Symbol.lit ++
                  symbolsOf (frags.drop (cur + 1)) →
              Looks frags ⟨cur, some index⟩ (.lit value[index])
                (remaining frags after) := by
        intro after hAfter
        constructor
        · show derefAt frags cur index = _
          rw [derefAt_str hGet, charAt_of_lt hIndex]
          rfl
        · intro kind
          unfold FragmentIter.isMeta Symbol.isMeta
          rw [hGet]
          simp
        · rw [remaining_str hGet, hDrop, hAfter]
          rfl
      by_cases hNext : index + 1 < value.length
      · have hByte : value[index + 1] ≠ 0 := by
          intro hZero
          apply hNull
          unfold HasNull
          rw [List.any_eq_true]
          refine ⟨.str value, List.mem_of_getElem? hGet, ?_⟩
          unfold Fragment.hasNullChar
          rw [decide_eq_true_eq, ← hZero]
          exact List.getElem_mem hNext
        refine
          ⟨_, ⟨cur, some (index + 1)⟩, hLooks _ ?_, ?_,
            .inl ⟨rfl, value, hGet, hNext⟩⟩
        · exact remaining_str hGet
        · unfold next
          simp only [derefAt_str hGet, charAt_of_lt hNext,
            bind_done, if_neg hByte]
      · have hLast : index + 1 = value.length := by omega
        refine
          ⟨_, atFragment frags (cur + 1), hLooks _ ?_, ?_,
            .inr rfl⟩
        · rw [remaining_atFragment, hLast, List.drop_length]
          rfl
        · unfold next
          simp only [derefAt_str hGet, hLast, charAt_length,
            bind_done, if_pos]

/- Every place is on a byte, on a wildcard or at the end. -/
theorem valid_fragment
    (hNonempty : NoEmpty frags)
    {cur : Nat}
    (hLe : cur ≤ frags.length) :
    Valid frags (atFragment frags cur) := by
  apply valid_atFragment hLe
  intro hGet
  exact hNonempty (List.mem_of_getElem? hGet)

/- The iterator stands for the symbols that remain. -/
def Stands
    (frags : List Fragment)
    (it : FragmentIter)
    (rest : List Symbol) : Prop :=
  Valid frags it ∧ rest = remaining frags it

theorem remaining_last :
    remaining frags (last frags) = [] := by
  rw [last_eq, remaining_none, List.drop_length]
  rfl

theorem simulates
    (hNull : ¬HasNull frags)
    (hNonempty : NoEmpty frags) :
    Simulates (Stands frags) (pattern frags) symbolPattern := by
  have hStep :
      ∀ it, Valid frags it → it ≠ last frags →
        ∃ symbol after,
          Looks frags it symbol (remaining frags after) ∧
            next frags it = .done after ∧ Valid frags after := by
    intro it hValid hNe
    have hLt := cur_lt_of_ne_last hValid hNe
    rcases next_valid hNull hValid hLt with
      ⟨symbol, after, hLooks, hNext, hAfter⟩
    refine ⟨symbol, after, hLooks, hNext, ?_⟩
    rcases hAfter with ⟨-, hAfterValid⟩ | hFragment
    · exact hAfterValid
    · rw [hFragment]
      exact valid_fragment hNonempty hLt
  have hLast :
      ∀ kind, isMeta frags kind (last frags) = false := by
    intro kind
    unfold isMeta
    rw [last_eq, List.getElem?_eq_none (Nat.le_refl _)]
    rfl
  have hMeta :
      ∀ kind it rest, Stands frags it rest →
        isMeta frags kind it = Symbol.isMeta kind rest := by
    intro kind it rest hStands
    rw [hStands.2]
    by_cases hEnd : it = last frags
    · rw [hEnd, remaining_last, hLast]
      rfl
    · rcases hStep it hStands.1 hEnd with
        ⟨symbol, after, hLooks, -⟩
      rw [hLooks.isMeta, hLooks.remaining]
      cases symbol with
      | lit ch => rfl
      | wildcard found => rfl
  constructor
  · exact
      ⟨valid_fragment hNonempty (Nat.le_refl _),
        remaining_last.symm⟩
  · intro it rest hStands
    show decide (it = last frags) = rest.isEmpty
    rw [hStands.2]
    by_cases hEnd : it = last frags
    · rw [hEnd, remaining_last]
      simp
    · rcases hStep it hStands.1 hEnd with
        ⟨symbol, after, hLooks, -⟩
      rw [hLooks.remaining, decide_eq_false hEnd]
      rfl
  · intro it rest hStands
    exact hMeta .ANY it rest hStands
  · intro it rest hStands
    exact hMeta .ZERO_OR_MORE it rest hStands
  · intro it rest hStands
    show Agree Eq (deref frags it) (Symbol.deref rest)
    rw [hStands.2]
    by_cases hEnd : it = last frags
    · rw [hEnd, remaining_last, last_eq]
      exact .done rfl
    · rcases hStep it hStands.1 hEnd with
        ⟨symbol, after, hLooks, -⟩
      rw [hLooks.deref, hLooks.remaining]
      cases symbol with
      | lit ch => exact .done rfl
      | wildcard kind => exact .done rfl
  · intro it hEnd
    have hEq : it = last frags := of_decide_eq_true hEnd
    rw [hEq]
    show deref frags (last frags) = _
    rw [last_eq]
    rfl
  · intro it rest hStands hEnd
    have hNe : it ≠ last frags := of_decide_eq_false hEnd
    rcases hStep it hStands.1 hNe with
      ⟨symbol, after, hLooks, hNext, hAfter⟩
    show Agree _ (next frags it) (.done rest.tail)
    rw [hNext, hStands.2, hLooks.remaining]
    exact .done ⟨hAfter, rfl⟩

theorem stands_begin
    (hNonempty : NoEmpty frags) :
    Stands frags (begin frags) (symbolsOf frags) := by
  refine ⟨valid_fragment hNonempty (Nat.zero_le _), ?_⟩
  unfold begin
  rw [remaining_atFragment, List.drop_zero]

end FragmentIter

----
-- Presenting
----

variable {κ : Type}

theorem Simulates.readAll
    {R : ι → κ → Prop}
    {P : Pattern ι}
    {Q : Pattern κ}
    (hSim : Simulates R P Q)
    (bound : Nat)
    {i : ι}
    {j : κ}
    (hRel : R i j) :
    Agree Eq (readAll P bound i) (readAll Q bound j) := by
  induction bound generalizing i j with
  | zero => exact .timeout
  | succ bound ih =>
      unfold Glob.readAll
      rw [← hSim.isEnd i j hRel, ← hSim.isAny i j hRel,
        ← hSim.isZeroOrMore i j hRel]
      cases hEnd : P.isEnd i with
      | true => exact .done rfl
      | false =>
          have hSymbol :
              Agree Eq
                (if P.isAny i then
                    .done (Symbol.wildcard .ANY)
                  else if P.isZeroOrMore i then
                    .done (Symbol.wildcard .ZERO_OR_MORE)
                  else
                    (P.deref i).map Symbol.lit)
                (if P.isAny i then
                    .done (Symbol.wildcard .ANY)
                  else if P.isZeroOrMore i then
                    .done (Symbol.wildcard .ZERO_OR_MORE)
                  else
                    (Q.deref j).map Symbol.lit) := by
            apply Agree.ite
            · intro _
              exact .done rfl
            · intro _
              apply Agree.ite
              · intro _
                exact .done rfl
              · intro _
                apply (hSim.deref i j hRel).map
                intro x y hEq
                rw [hEq]
          simp only [Bool.false_eq_true, if_false]
          apply hSymbol.bind
          intro x y hEq
          rw [hEq]
          apply (hSim.next i j hRel hEnd).bind
          intro after after' hAfter
          apply (ih hAfter).map
          intro rest rest' hRest
          rw [hRest]

/- The list of symbols presents itself. -/
theorem readAll_symbolPattern
    (symbols : List Symbol)
    {bound : Nat}
    (hBound : symbols.length < bound) :
    readAll symbolPattern bound symbols = .done symbols := by
  induction symbols generalizing bound with
  | nil =>
      cases bound with
      | zero => exact absurd hBound (Nat.not_lt_zero _)
      | succ bound => rfl
  | cons symbol symbols ih =>
      cases bound with
      | zero => exact absurd hBound (Nat.not_lt_zero _)
      | succ bound =>
          have hRest :
              readAll symbolPattern bound symbols =
                .done symbols :=
            ih (Nat.lt_of_succ_lt_succ hBound)
          have hStep :
              ∀ found,
                (Faulting.done found).bind
                    (fun symbol =>
                      (readAll symbolPattern bound symbols).map
                        (fun rest => symbol :: rest)) =
                  .done (found :: symbols) := by
            intro found
            rw [hRest]
            rfl
          cases symbol with
          | lit ch => exact hStep (.lit ch)
          | wildcard kind =>
              cases kind with
              | ANY => exact hStep (.wildcard .ANY)
              | ZERO_OR_MORE =>
                  exact hStep (.wildcard .ZERO_OR_MORE)

theorem presents_of_noEmpty
    {frags : List Fragment}
    (hNull : ¬HasNull frags)
    (hNonempty : NoEmpty frags) :
    Presents frags := by
  refine ⟨(symbolsOf frags).length + 1, ?_⟩
  have hAgree :=
    (FragmentIter.simulates hNull hNonempty).readAll
      ((symbolsOf frags).length + 1)
      (FragmentIter.stands_begin hNonempty)
  rw [hAgree.eq]
  exact readAll_symbolPattern _ (Nat.lt_succ_self _)

----
-- Empty Fragments
----

namespace FragmentIter

variable {frags : List Fragment}

/- On the way to the first empty string, or at it. -/
def Before
    (frags : List Fragment)
    (stop : Nat)
    (it : FragmentIter) : Prop :=
  it = atFragment frags stop ∨
    (it.cur < stop ∧ Valid frags it)

theorem before_atFragment
    {stop : Nat}
    (hStop : stop < frags.length)
    (hFirst : ∀ cur < stop, frags[cur]? ≠ some (.str []))
    {cur : Nat}
    (hLe : cur ≤ stop) :
    Before frags stop (atFragment frags cur) := by
  rcases Nat.lt_or_eq_of_le hLe with hLt | hEq
  · exact
      .inr
        ⟨hLt,
          valid_atFragment (by omega) (hFirst cur hLt)⟩
  · rw [hEq]
    exact .inl rfl

/- Past the null of an empty string nothing can be read. -/
theorem next_empty
    {stop : Nat}
    (hEmpty : frags[stop]? = some (.str [])) :
    next frags (atFragment frags stop) = .fault := by
  rw [startOf_str hEmpty]
  unfold next derefAt
  simp only [hEmpty]
  rfl

theorem next_before
    (hNull : ¬HasNull frags)
    {stop : Nat}
    (hEmpty : frags[stop]? = some (.str []))
    (hFirst : ∀ cur < stop, frags[cur]? ≠ some (.str []))
    {it : FragmentIter}
    (hBefore : Before frags stop it) :
    next frags it = .fault ∨
      ∃ after,
        next frags it = .done after ∧
          Before frags stop after := by
  have hStop := (List.getElem?_eq_some_iff.mp hEmpty).1
  rcases hBefore with hAt | ⟨hLt, hValid⟩
  · left
    rw [hAt]
    exact next_empty hEmpty
  · right
    rcases next_valid hNull hValid (Nat.lt_trans hLt hStop) with
      ⟨symbol, after, -, hNext, hAfter⟩
    refine ⟨after, hNext, ?_⟩
    rcases hAfter with ⟨hCur, hAfterValid⟩ | hFragment
    · exact .inr ⟨by omega, hAfterValid⟩
    · rw [hFragment]
      exact before_atFragment hStop hFirst hLt

/- Reading never comes to an end. -/
theorem readAll_before
    (hNull : ¬HasNull frags)
    {stop : Nat}
    (hEmpty : frags[stop]? = some (.str []))
    (hFirst : ∀ cur < stop, frags[cur]? ≠ some (.str []))
    (bound : Nat)
    {it : FragmentIter}
    (hBefore : Before frags stop it)
    (symbols : List Symbol) :
    readAll (pattern frags) bound it ≠ .done symbols := by
  induction bound generalizing it symbols with
  | zero =>
      intro hDone
      cases hDone
  | succ bound ih =>
      have hStop := (List.getElem?_eq_some_iff.mp hEmpty).1
      have hCur : it.cur < frags.length := by
        rcases hBefore with hAt | ⟨hLt, -⟩
        · rw [hAt]
          exact hStop
        · exact Nat.lt_trans hLt hStop
      have hEnd : (pattern frags).isEnd it = false := by
        apply decide_eq_false
        intro hEq
        rw [hEq] at hCur
        exact Nat.lt_irrefl _ hCur
      intro hDone
      unfold readAll at hDone
      rw [hEnd] at hDone
      simp only [Bool.false_eq_true, if_false] at hDone
      generalize
        (if (pattern frags).isAny it then
            Faulting.done (Symbol.wildcard .ANY)
          else if (pattern frags).isZeroOrMore it then
            .done (Symbol.wildcard .ZERO_OR_MORE)
          else
            ((pattern frags).deref it).map Symbol.lit) = found
        at hDone
      cases found with
      | fault => cases hDone
      | timeout => cases hDone
      | done symbol =>
          have hNext :
              (pattern frags).next it = next frags it :=
            rfl
          rw [bind_done, hNext] at hDone
          rcases next_before hNull hEmpty hFirst hBefore with
            hFault | ⟨after, hAfter, hAfterBefore⟩
          · rw [hFault] at hDone
            cases hDone
          · rw [hAfter, bind_done] at hDone
            cases hRest : readAll (pattern frags) bound after with
            | fault | timeout =>
                rw [hRest] at hDone
                cases hDone
            | done rest => exact ih hAfterBefore rest hRest

theorem noEmpty_of_presents
    (hNull : ¬HasNull frags)
    (hPresents : Presents frags) :
    NoEmpty frags := by
  intro hMem
  have hExists :
      ∃ stop, frags[stop]? = some (Fragment.str []) :=
    List.mem_iff_getElem?.mp hMem
  classical
  have hEmpty := Nat.find_spec hExists
  have hFirst :
      ∀ cur < Nat.find hExists,
        frags[cur]? ≠ some (.str []) :=
    fun cur hLt => Nat.find_min hExists hLt
  rcases hPresents with ⟨bound, hDone⟩
  have hStop := (List.getElem?_eq_some_iff.mp hEmpty).1
  exact
    readAll_before hNull hEmpty hFirst bound
      (before_atFragment hStop hFirst (Nat.zero_le _)) _ hDone

end FragmentIter

end Glob

end Ydsh
