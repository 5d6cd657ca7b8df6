import Ydsh.Code.BreakTarget

/-
  The finally blocks a jump enters.

  A return leaves every try of its function; a break or
  continue leaves those inside of its loop.  The generator has
  one stack of finally labels for both and enters all of it
  whenever the checker says that a jump leaves a try.

  Main declarations:
    * `AroundTries`
    * `AroundTries.left`
    * `LeavesOutermostLoops`
    * `EntersLeftTries`
    * `entersLeftTries_iff`
-/

----
-- Tries Around a Node
----

namespace Ydsh

/-
  The tries with a finally block around a node, from the
  innermost one: those inside of its innermost loop, and those
  around that loop.  A finally block is not guarded by its own
  try.
-/
structure AroundTries where
  inner : List Nat
  outer : List Nat
  deriving DecidableEq, Repr

namespace AroundTries

def init : AroundTries := { inner := [], outer := [] }

def enterLoop (tries : AroundTries) : AroundTries :=
  { inner := [], outer := tries.inner ++ tries.outer }

def enterTry
    (pos : Nat)
    (hasFinally : Bool)
    (tries : AroundTries) : AroundTries :=
  if hasFinally then
    { tries with inner := pos :: tries.inner }
  else
    tries

def enter (label : Part) (tries : AroundTries) : AroundTries :=
  match label with
  | .header _ _ _ => tries.enterLoop
  | .body _ _ _ => tries.enterLoop
  | .tryBody pos hasFinally => tries.enterTry pos hasFinally
  | .catchClause pos hasFinally => tries.enterTry pos hasFinally
  | .function _ => init
  | .userDefinedCmd => init
  | .module => init
  | _ => tries

def along (path : List Part) : AroundTries :=
  Library.enterAll enter path init

/- The tries a jump leaves, the innermost one first. -/
def left (op : JumpOp) (tries : AroundTries) : List Nat :=
  if op = .return then
    tries.inner ++ tries.outer
  else
    tries.inner

end AroundTries

/-
  No break or continue that leaves a try belongs to a loop with
  a try around it that has a finally block.
-/
def LeavesOutermostLoops
    (assertion : Bool)
    (nodes : List Node) : Prop :=
  ∀ node ∈ nodes,
    ∀ path ann op exprNode target,
      Library.Occurs (Node.compiledParts assertion) node path
        (.jump ann op exprNode true target) →
      op = .break ∨ op = .continue →
      (AroundTries.along path).outer = []

/- The record is one of the jump at the end of a path. -/
structure JumpRecord.IsAt
    (record : JumpRecord)
    (path : List Part)
    (jumpPos : Nat)
    (jumpOp : JumpOp) : Prop where
  pos : record.pos = jumpPos
  op : record.op = jumpOp
  known :
    record.known.map FinallyState.tryPos =
      (AroundTries.along path).inner ++
        (AroundTries.along path).outer
  enclosing :
    ∀ loop ∈ record.loop,
      loop.enclosing.map FinallyState.tryPos =
        (AroundTries.along path).outer

/- The finally blocks entered are those of the tries left. -/
def JumpRecord.EntersLeft
    (record : JumpRecord)
    (path : List Part) : Prop :=
  record.entered.map FinallyState.tryPos =
    (AroundTries.along path).left record.op

def IsCompiledJump
    (assertion : Bool)
    (nodes : List Node)
    (path : List Part)
    (pos : Nat)
    (op : JumpOp) : Prop :=
  op ≠ .throw ∧
    ∃ node ∈ nodes,
      ∃ ann exprNode leavingBlock target,
        ann.pos = pos ∧
          Library.Occurs (Node.compiledParts assertion) node path
            (.jump ann op exprNode leavingBlock target)

/-
  Every compiled jump has a record, and every record is
  followed by code that enters the finally blocks of the tries
  left and then leaves.  The labels it enters are marked at the
  finally blocks of these tries.
-/
structure EntersLeftTries
    (assertion : Bool)
    (nodes : List Node)
    (units : List CodeUnit) : Prop where
  recorded :
    ∀ path pos op,
      IsCompiledJump assertion nodes path pos op →
      ∃ record ∈ jumpRecords units, record.IsAt path pos op
  followed :
    ∀ unit ∈ units,
      ∀ front record back,
        unit.items = front ++ .jump record :: back →
        (∃ path,
          IsCompiledJump assertion nodes path record.pos
              record.op ∧
            record.IsAt path record.pos record.op ∧
              record.EntersLeft path) ∧
          (∃ ins, record.Leaves ins ∧ record.code ins <+: back) ∧
            ∀ found ∈ record.entered, found.Marked unit.items

----
-- Both Sides Along a Path
----

/-
  The generator knows all tries around a node; the checker
  sees none inside of the loop when its levels say so.
-/
structure TriesPlaced
    (place : Place)
    (tries : AroundTries) : Prop where
  known : place.shape.tries = tries.inner ++ tries.outer
  enclosing :
    ∀ loop ∈ place.shape.loops.head?,
      loop.enclosing = tries.outer
  tryLevel :
    place.checker.fctx.tryCatchLevel < place.checker.fctx.size
  loopLevel :
    place.checker.fctx.loopLevel < place.checker.fctx.size
  inner :
    place.checker.fctx.tryCatchLevel ≤
        place.checker.fctx.loopLevel →
      tries.inner = []

theorem triesPlaced_init (assertion : Bool) :
    TriesPlaced (.init assertion) .init where
  known := rfl
  enclosing := nofun
  tryLevel := Nat.zero_lt_one
  loopLevel := Nat.zero_lt_one
  inner := fun _ => rfl

/- Entering a body or clause raises the level of tries. -/
theorem triesPlaced_enterTry
    {place : Place}
    {tries : AroundTries}
    {label : Part}
    {pos : Nat}
    {hasFinally : Bool}
    (hPlaced : TriesPlaced place tries)
    (hLabel :
      label = .tryBody pos hasFinally ∨
        label = .catchClause pos hasFinally) :
    TriesPlaced (place.enter label) (tries.enter label) := by
  have hShape :
      (place.enter label).shape =
        place.shape.enterTry pos hasFinally := by
    rcases hLabel with hIs | hIs <;> rw [hIs] <;> rfl
  have hTries :
      tries.enter label = tries.enterTry pos hasFinally := by
    rcases hLabel with hIs | hIs <;> rw [hIs] <;> rfl
  have hChecker :
      (place.enter label).checker.fctx =
        place.checker.fctx.enterTry := by
    rcases hLabel with hIs | hIs <;> rw [hIs] <;> rfl
  constructor
  · rw [hShape, hTries]
    cases hasFinally with
    | false => exact hPlaced.known
    | true => exact congrArg (pos :: ·) hPlaced.known
  · rw [hShape, hTries]
    cases hasFinally <;> exact hPlaced.enclosing
  · rw [hChecker]
    exact Nat.lt_succ_self _
  · rw [hChecker]
    exact Nat.lt_succ_of_lt hPlaced.loopLevel
  · rw [hChecker]
    intro hLevel
    exact absurd hPlaced.loopLevel (Nat.not_lt.mpr hLevel)

/- Labels that enter no loop, no try and no function. -/
theorem triesPlaced_enterOther
    {place : Place}
    {tries : AroundTries}
    {label : Part}
    (hPlaced : TriesPlaced place tries)
    (hShape :
      (place.enter label).shape.tries = place.shape.tries ∧
        (place.enter label).shape.loops = place.shape.loops)
    (hChecker :
      (place.enter label).checker.fctx.tryCatchLevel =
          place.checker.fctx.tryCatchLevel ∧
        (place.enter label).checker.fctx.loopLevel =
            place.checker.fctx.loopLevel ∧
          place.checker.fctx.size ≤
            (place.enter label).checker.fctx.size)
    (hTries : tries.enter label = tries) :
    TriesPlaced (place.enter label) (tries.enter label) where
  known := by
    rw [hShape.1, hTries]
    exact hPlaced.known
  enclosing := by
    rw [hShape.2, hTries]
    exact hPlaced.enclosing
  tryLevel := by
    rw [hChecker.1]
    exact Nat.lt_of_lt_of_le hPlaced.tryLevel hChecker.2.2
  loopLevel := by
    rw [hChecker.2.1]
    exact Nat.lt_of_lt_of_le hPlaced.loopLevel hChecker.2.2
  inner := by
    rw [hChecker.1, hChecker.2.1, hTries]
    exact hPlaced.inner

/- The function of a new code unit starts without tries. -/
theorem triesPlaced_enterUnit
    {place : Place}
    {tries : AroundTries}
    {label : Part}
    (hShape :
      (place.enter label).shape.tries = [] ∧
        (place.enter label).shape.loops = [])
    (hChecker :
      (place.enter label).checker.fctx.tryCatchLevel <
          (place.enter label).checker.fctx.size ∧
        (place.enter label).checker.fctx.loopLevel <
          (place.enter label).checker.fctx.size)
    (hTries : tries.enter label = .init) :
    TriesPlaced (place.enter label) (tries.enter label) where
  known := by
    rw [hShape.1, hTries]
    rfl
  enclosing := by
    rw [hShape.2]
    exact nofun
  tryLevel := hChecker.1
  loopLevel := hChecker.2
  inner := by
    rw [hTries]
    exact fun _ => rfl

theorem triesPlaced_enter
    {place : Place}
    {tries : AroundTries}
    (label : Part)
    (hPlaced : TriesPlaced place tries) :
    TriesPlaced (place.enter label) (tries.enter label) := by
  have hSame := Nat.le_refl place.checker.fctx.size
  have hMore := Nat.le_succ place.checker.fctx.size
  cases label with
  | tryBody pos hasFinally =>
      exact triesPlaced_enterTry hPlaced (Or.inl rfl)
  | catchClause pos hasFinally =>
      exact triesPlaced_enterTry hPlaced (Or.inr rfl)
  | header pos type declared =>
      exact
        { known := hPlaced.known
          enclosing := by
            intro loop hLoop
            cases hLoop
            exact hPlaced.known
          tryLevel := hPlaced.tryLevel
          loopLevel := hPlaced.loopLevel
          inner := fun _ => rfl }
  | body pos type declared =>
      exact
        { known := hPlaced.known
          enclosing := by
            intro loop hLoop
            cases hLoop
            exact hPlaced.known
          tryLevel := Nat.lt_succ_of_lt hPlaced.tryLevel
          loopLevel := Nat.lt_succ_self _
          inner := fun _ => rfl }
  | plain | slots offset size =>
      exact
        triesPlaced_enterOther hPlaced ⟨rfl, rfl⟩
          ⟨rfl, rfl, hSame⟩ rfl
  | finallyBlock pos | child =>
      exact
        triesPlaced_enterOther hPlaced ⟨rfl, rfl⟩
          ⟨rfl, rfl, hMore⟩ rfl
  | function returnType | userDefinedCmd =>
      exact
        triesPlaced_enterUnit ⟨rfl, rfl⟩
          ⟨hPlaced.tryLevel, hPlaced.loopLevel⟩ rfl
  | module =>
      exact
        triesPlaced_enterUnit ⟨rfl, rfl⟩
          ⟨Nat.zero_lt_one, Nat.zero_lt_one⟩ rfl

theorem triesPlaced_enterAll
    (path : List Part)
    {place : Place}
    {tries : AroundTries}
    (hPlaced : TriesPlaced place tries) :
    TriesPlaced
      (Library.enterAll Place.enter path place)
      (Library.enterAll AroundTries.enter path tries) := by
  induction path generalizing place tries with
  | nil => exact hPlaced
  | cons label path ih =>
      exact ih (triesPlaced_enter label hPlaced)

theorem triesPlaced_along
    (assertion : Bool)
    (path : List Part) :
    TriesPlaced
      (Library.enterAll Place.enter path (.init assertion))
      (AroundTries.along path) :=
  triesPlaced_enterAll path (triesPlaced_init assertion)

----
-- Traces of Jumps
----

theorem Place.enterAll_checker
    (path : List Part)
    (place : Place) :
    (Library.enterAll Place.enter path place).checker =
      Library.enterAll TypeChecker.enter path place.checker := by
  induction path generalizing place with
  | nil => rfl
  | cons label path ih => exact ih (place.enter label)

/- The trace is one of the jump at the end of a path. -/
structure JumpTrace.IsAt
    (trace : JumpTrace)
    (path : List Part)
    (jumpPos : Nat)
    (jumpOp : JumpOp) : Prop where
  pos : trace.pos = jumpPos
  op : trace.op = jumpOp
  known :
    trace.known =
      (AroundTries.along path).inner ++
        (AroundTries.along path).outer
  enclosing :
    ∀ loop ∈ trace.loop,
      loop.enclosing = (AroundTries.along path).outer
  entered :
    trace.entered =
      if jumpOp = .return ∨ trace.leavingBlock = true then
        trace.known
      else
        []
  inLoop : jumpOp ≠ .return → trace.loop ≠ none

theorem JumpRecord.isAt_iff
    (record : JumpRecord)
    (path : List Part)
    (pos : Nat)
    (op : JumpOp) :
    record.IsAt path pos op ↔
      record.trace.pos = pos ∧
        record.trace.op = op ∧
          record.trace.known =
              (AroundTries.along path).inner ++
                (AroundTries.along path).outer ∧
            ∀ loop ∈ record.trace.loop,
              loop.enclosing = (AroundTries.along path).outer := by
  constructor
  · intro hAt
    refine ⟨hAt.pos, hAt.op, hAt.known, ?_⟩
    intro loop hLoop
    rcases Option.map_eq_some_iff.mp hLoop with
      ⟨state, hState, hShape⟩
    rw [← hShape]
    exact hAt.enclosing state hState
  · rintro ⟨hPos, hOp, hKnown, hLoop⟩
    refine ⟨hPos, hOp, hKnown, ?_⟩
    intro state hState
    exact
      hLoop state.shape
        (Option.map_eq_some_iff.mpr ⟨state, hState, rfl⟩)

section

variable {assertion : Bool}
variable {path : List Part}
variable {trace : Trace}

/- A jump that is no fault of the generator has its trace. -/
theorem isAt_of_own
    {target : Node}
    (hOwn :
      trace ∈
        (Library.enterAll Place.enter path
          (.init assertion)).shape.own target) :
    ∃ ann op exprNode leavingBlock loopPos,
      target = .jump ann op exprNode leavingBlock loopPos ∧
        op ≠ .throw ∧
          ((∃ kind, trace = .fault kind) ∨
            ∃ found,
              trace = .jump found ∧
                found.IsAt path ann.pos op ∧
                  (op ≠ .return →
                    found.leavingBlock = leavingBlock)) := by
  have hPlaced := triesPlaced_along assertion path
  rcases own_cases hOwn with
    ⟨ann, op, exprNode, leavingBlock, loopPos, hTarget, hCases⟩
  refine
    ⟨ann, op, exprNode, leavingBlock, loopPos, hTarget, ?_⟩
  rcases hCases with ⟨hOp, hReturn⟩ | ⟨hOp, hBreak⟩
  · subst hOp
    refine ⟨nofun, Or.inr ⟨_, hReturn, ?_, fun hNot => ?_⟩⟩
    · exact
        { pos := rfl
          op := rfl
          known := hPlaced.known
          enclosing := nofun
          entered := rfl
          inLoop := fun hNot => absurd rfl hNot }
    · exact absurd rfl hNot
  · have hNotThrow : op ≠ .throw := by
      rcases hOp with hOp | hOp <;> rw [hOp] <;> exact nofun
    have hNotReturn : op ≠ .return := by
      rcases hOp with hOp | hOp <;> rw [hOp] <;> exact nofun
    refine ⟨hNotThrow, ?_⟩
    have hEnclosing := hPlaced.enclosing
    unfold GenShape.breakTrace at hBreak
    split at hBreak
    next => exact Or.inl ⟨_, hBreak⟩
    next loop rest hLoops =>
      split at hBreak
      next =>
        refine Or.inr ⟨_, hBreak, ?_, fun _ => rfl⟩
        exact
          { pos := rfl
            op := rfl
            known := hPlaced.known
            enclosing := by
              intro found hFound
              cases hFound
              refine hEnclosing loop ?_
              rw [hLoops]
              rfl
            entered := by
              rw [if_congr (or_iff_right hNotReturn) rfl rfl]
            inLoop := fun _ => nofun }
      next => exact Or.inl ⟨_, hBreak⟩

/- Every jump but a throw has a trace of its own. -/
theorem own_of_jump
    (shape : GenShape)
    (ann : Ann)
    {op : JumpOp}
    (exprNode : Node)
    (leavingBlock : Bool)
    (target : Option Nat)
    (hThrow : op ≠ .throw) :
    ∃ trace,
      trace ∈
        shape.own
          (.jump ann op exprNode leavingBlock target) := by
  cases op with
  | «break» => exact ⟨_, rfl⟩
  | «continue» => exact ⟨_, rfl⟩
  | «throw» => exact absurd rfl hThrow
  | «return» => exact ⟨_, rfl⟩

/- The flag of a jump says whether its levels leave a try. -/
theorem leavingBlock_of_accepted
    {nodes : List Node}
    {node : Node}
    {ann : Ann}
    {op : JumpOp}
    {exprNode : Node}
    {leavingBlock : Bool}
    {target : Option Nat}
    (hAccepts : TypeChecker.Accepts nodes)
    (hNode : node ∈ nodes)
    (hOccurs :
      Library.Occurs (Node.compiledParts assertion) node path
        (.jump ann op exprNode leavingBlock target))
    (hOp : op = .break ∨ op = .continue)
    (hStays : leavingBlock = false) :
    (AroundTries.along path).inner = [] := by
  have hVisit :=
    (TypeChecker.visitAll_iff _ node).mp (hAccepts node hNode)
      path _
      (hOccurs.mono (Node.compiledParts_subset assertion))
  simp only [TypeChecker.visit, Bool.and_eq_true, beq_iff_eq]
    at hVisit
  have hCheck :
      (Library.enterAll TypeChecker.enter path
          .init).checkTypeAsBreakContinue op exprNode =
        .ok (leavingBlock, target) := by
    rcases hOp with hOp | hOp
    · subst hOp
      exact hVisit.1.1
    · subst hOp
      exact hVisit.1.1
  rcases TypeChecker.checkTypeAsBreakContinue_ok hCheck with
    ⟨_, _, _, hFlag, _⟩
  have hPlaced := triesPlaced_along assertion path
  refine hPlaced.inner ?_
  rw [Place.enterAll_checker]
  rw [hStays] at hFlag
  exact Nat.le_of_not_lt (of_decide_eq_false hFlag.symm)

end

----
-- Tries Left by the Jumps
----

section

variable {assertion : Bool}
variable {nodes : List Node}
variable {units : List CodeUnit}
variable {maxVarIndex : Nat}

/- What is entered is what is left, or the whole stack. -/
theorem entered_eq_left
    {path : List Part}
    {ann : Ann}
    {op : JumpOp}
    {exprNode node : Node}
    {leavingBlock : Bool}
    {target : Option Nat}
    {trace : JumpTrace}
    (hAccepts : TypeChecker.Accepts nodes)
    (hNode : node ∈ nodes)
    (hOccurs :
      Library.Occurs (Node.compiledParts assertion) node path
        (.jump ann op exprNode leavingBlock target))
    (hThrow : op ≠ .throw)
    (hAt : trace.IsAt path ann.pos op)
    (hFlag : op ≠ .return → trace.leavingBlock = leavingBlock)
    (hOuter :
      op = .break ∨ op = .continue →
      leavingBlock = true →
      (AroundTries.along path).outer = []) :
    trace.entered = (AroundTries.along path).left op := by
  rw [hAt.entered]
  by_cases hReturn : op = .return
  · rw [if_pos (Or.inl hReturn), AroundTries.left,
      if_pos hReturn, hAt.known]
  · have hOp : op = .break ∨ op = .continue := by
      cases op with
      | «break» => exact Or.inl rfl
      | «continue» => exact Or.inr rfl
      | «throw» => exact absurd rfl hThrow
      | «return» => exact absurd rfl hReturn
    rw [AroundTries.left, if_neg hReturn,
      if_congr (or_iff_right hReturn) rfl rfl, hFlag hReturn]
    cases leavingBlock with
    | false =>
        exact
          (leavingBlock_of_accepted hAccepts hNode hOccurs hOp
            rfl).symm
    | true =>
        rw [if_pos rfl, hAt.known, hOuter hOp rfl,
          List.append_nil]

/- The generator leaves a record of every compiled jump. -/
theorem recorded_of_traces
    {path : List Part}
    {ann : Ann}
    {op : JumpOp}
    {exprNode node : Node}
    {leavingBlock : Bool}
    {target : Option Nat}
    {pos : Nat}
    (hFaults :
      ∀ kind,
        .fault kind ∉
          listTraces assertion (.toplevel assertion) nodes)
    (hRecords :
      ∀ trace,
        (∃ record ∈ jumpRecords units, record.trace = trace) ↔
          .jump trace ∈
            listTraces assertion (.toplevel assertion) nodes)
    (hThrow : op ≠ .throw)
    (hNode : node ∈ nodes)
    (hPos : ann.pos = pos)
    (hOccurs :
      Library.Occurs (Node.compiledParts assertion) node path
        (.jump ann op exprNode leavingBlock target)) :
    ∃ record ∈ jumpRecords units,
      record.IsAt path pos op ∧
        record.trace.IsAt path pos op ∧
          (op ≠ .return → record.leavingBlock = leavingBlock) := by
  rcases own_of_jump
      (Library.enterAll Place.enter path (.init assertion)).shape
      ann exprNode leavingBlock target hThrow with
    ⟨trace, hOwn⟩
  have hMem :=
    (mem_script_traces_iff assertion nodes trace).mpr
      ⟨node, hNode, path, _, hOccurs, hOwn⟩
  rcases isAt_of_own hOwn with
    ⟨_, _, _, _, _, hTarget, _,
      ⟨kind, hFault⟩ | ⟨found, hFound, hAt, hFlag⟩⟩
  · rw [hFault] at hMem
    exact absurd hMem (hFaults kind)
  · cases hTarget
    subst hFound
    subst hPos
    rcases (hRecords found).mpr hMem with ⟨record, hRecord, hIs⟩
    subst hIs
    refine ⟨record, hRecord, ?_, hAt, hFlag⟩
    exact
      (record.isAt_iff path _ _).mpr
        ⟨hAt.pos, hAt.op, hAt.known, hAt.enclosing⟩

theorem entersLeftTries_of_outermost
    (hAccepts : TypeChecker.Accepts nodes)
    (hOk : generate assertion nodes maxVarIndex = .ok units)
    (hOutermost : LeavesOutermostLoops assertion nodes) :
    EntersLeftTries assertion nodes units := by
  have hTraces :=
    generate_traces assertion nodes maxVarIndex hAccepts
  rw [hOk] at hTraces
  rcases hTraces with ⟨hFaults, hRecords, hFollowed⟩
  constructor
  · rintro path pos op
      ⟨hThrow, node, hNode, ann, exprNode, leavingBlock, target,
        hPos, hOccurs⟩
    rcases recorded_of_traces hFaults hRecords hThrow hNode hPos
        hOccurs with ⟨record, hRecord, hAt, _⟩
    exact ⟨record, hRecord, hAt⟩
  · intro unit hUnit front record back hItems
    rcases hFollowed unit hUnit front record back hItems with
      ⟨hCode, hEntered⟩
    refine
      ⟨?_, hCode, fun found hFound =>
        (hEntered found hFound).resolve_left List.not_mem_nil⟩
    have hMem :=
      (hRecords record.trace).mp
        ⟨record, mem_jumpRecords hUnit hItems, rfl⟩
    rcases (mem_script_traces_iff assertion nodes _).mp hMem with
      ⟨node, hNode, path, target, hOccurs, hOwn⟩
    rcases isAt_of_own hOwn with
      ⟨ann, op, exprNode, leavingBlock, loopPos, hTarget, hThrow,
        ⟨kind, hFault⟩ | ⟨found, hFound, hAt, hFlag⟩⟩
    · cases hFault
    · cases hFound
      subst hTarget
      have hPos : record.pos = ann.pos := hAt.pos
      have hOp : record.op = op := hAt.op
      refine ⟨path, ?_, ?_, ?_⟩
      · rw [hPos, hOp]
        exact
          ⟨hThrow, node, hNode, ann, exprNode, leavingBlock,
            loopPos, rfl, hOccurs⟩
      · exact
          (record.isAt_iff path _ _).mpr
            ⟨rfl, rfl, hAt.known, hAt.enclosing⟩
      · unfold JumpRecord.EntersLeft
        rw [hOp]
        refine
          entered_eq_left hAccepts hNode hOccurs hThrow hAt hFlag
            ?_
        intro hBreak hLeaving
        subst hLeaving
        exact
          hOutermost node hNode path ann op exprNode loopPos
            hOccurs hBreak

theorem outermost_of_entersLeftTries
    (hAccepts : TypeChecker.Accepts nodes)
    (hOk : generate assertion nodes maxVarIndex = .ok units)
    (hEnters : EntersLeftTries assertion nodes units) :
    LeavesOutermostLoops assertion nodes := by
  have hTraces :=
    generate_traces assertion nodes maxVarIndex hAccepts
  rw [hOk] at hTraces
  rcases hTraces with ⟨hFaults, hRecords, _⟩
  intro node hNode path ann op exprNode target hOccurs hOp
  have hThrow : op ≠ .throw := by
    rcases hOp with hOp | hOp <;> rw [hOp] <;> exact nofun
  have hReturn : op ≠ .return := by
    rcases hOp with hOp | hOp <;> rw [hOp] <;> exact nofun
  rcases recorded_of_traces hFaults hRecords hThrow hNode rfl
      hOccurs with ⟨record, hRecord, _, hAt, hFlag⟩
  rcases List.mem_flatMap.mp hRecord with ⟨unit, hUnit, hItem⟩
  rcases List.mem_filterMap.mp hItem with ⟨item, hIn, hIs⟩
  rcases List.append_of_mem hIn with ⟨front, back, hItems⟩
  cases item <;> cases hIs
  rcases (hEnters.followed unit hUnit front record back
      hItems).1 with ⟨found, _, hFound, hLeft⟩
  rcases (record.isAt_iff found _ _).mp hFound with
    ⟨_, _, hKnown, hEnclosing⟩
  -- all of the stack has been entered
  have hEntered := hAt.entered
  have hLeaving : record.trace.leavingBlock = true :=
    hFlag hReturn
  rw [if_pos (Or.inr hLeaving)] at hEntered
  have hInner :
      (AroundTries.along found).inner ++
          (AroundTries.along found).outer =
        (AroundTries.along found).inner := by
    rw [← hKnown, ← hEntered]
    refine Eq.trans hLeft ?_
    have hRecordOp : record.op ≠ .return := by
      have hSame : record.op = op := hAt.op
      rw [hSame]
      exact hReturn
    rw [AroundTries.left, if_neg hRecordOp]
  have hOuter : (AroundTries.along found).outer = [] :=
    List.append_right_eq_self.mp hInner
  -- the loop is the same one, whichever jump is meant
  cases hLoop : record.trace.loop with
  | none => exact absurd hLoop (hAt.inLoop hReturn)
  | some loop =>
      exact
        (hAt.enclosing loop hLoop).symm.trans
          ((hEnclosing loop hLoop).trans hOuter)

/-
  The finally blocks entered by the jumps are those of the
  tries they leave exactly if no jump that leaves a try belongs
  to a loop inside of another try with a finally block.
-/
theorem entersLeftTries_iff
    (hAccepts : TypeChecker.Accepts nodes)
    (hOk : generate assertion nodes maxVarIndex = .ok units) :
    EntersLeftTries assertion nodes units ↔
      LeavesOutermostLoops assertion nodes :=
  ⟨outermost_of_entersLeftTries hAccepts hOk,
    entersLeftTries_of_outermost hAccepts hOk⟩

end

----
-- A Jump That Stays Inside of a Try
----

namespace Sample

def tryNode (pos : Nat) (nodes : List Node) : Node :=
  .try { pos, type := .void }
    (.block { pos, type := .void } nodes 0 0 0) []
    (some (.block { pos, type := .void } [] 0 0 0))

def breakIfTrue (pos target : Nat) : Node :=
  .ifElse { pos, type := .void } (trueNode pos)
    (.block { pos, type := .nothing }
      [.jump { pos := pos + 12, type := .nothing } .break emptyNode
        true (some target)]
      0 0 0)
    emptyNode

/- `while (true) { try { if (true) { break } } finally { } }` -/
def breakInTry (pos : Nat) : Node :=
  whileNode pos (trueNode (pos + 7))
    [tryNode (pos + 15) [breakIfTrue (pos + 21) pos],
      continueNode pos]

end Sample

theorem entersLeftTries_breakInTry :
    ∃ units,
      generate true [Sample.breakInTry 0] 0 = .ok units ∧
        (EntersLeftTries true [Sample.breakInTry 0] units ↔
          LeavesOutermostLoops true [Sample.breakInTry 0]) := by
  cases hOk : generate true [Sample.breakInTry 0] 0 with
  | error kind =>
      have hNone :
          (generate true [Sample.breakInTry 0] 0).toOption ≠
            none := by
        decide +kernel
      rw [hOk] at hNone
      exact absurd rfl hNone
  | ok units =>
      exact
        ⟨units, rfl, entersLeftTries_iff (by decide +kernel) hOk⟩

/- `try { while (true) { … break … } } finally { }` -/
theorem not_entersLeftTries_outerTry :
    ¬ ∀ (assertion : Bool)
        (nodes : List Node)
        (maxVarIndex : Nat)
        (units : List CodeUnit),
        TypeChecker.Accepts nodes →
        generate assertion nodes maxVarIndex = .ok units →
        EntersLeftTries assertion nodes units := by
  intro hAll
  cases hOk :
      generate true [Sample.tryNode 0 [Sample.breakInTry 6]] 0 with
  | error kind =>
      have hNone :
          (generate true [Sample.tryNode 0 [Sample.breakInTry 6]]
              0).toOption ≠
            none := by
        decide +kernel
      rw [hOk] at hNone
      exact absurd rfl hNone
  | ok units =>
      have hAccepts :
          TypeChecker.Accepts
            [Sample.tryNode 0 [Sample.breakInTry 6]] := by
        decide +kernel
      have hOutermost :=
        outermost_of_entersLeftTries hAccepts hOk
          (hAll true _ 0 units hAccepts hOk)
      have hInner :
          Library.Occurs (Node.compiledParts true)
            (Sample.breakIfTrue 27 6) [.plain, .slots 0 0]
            (.jump { pos := 39, type := .nothing } .break
              Sample.emptyNode true (some 6)) :=
        .there (.tail _ (.head _)) (.there (.head _) (.here _))
      have hOccurs :
          Library.Occurs (Node.compiledParts true)
            (Sample.tryNode 0 [Sample.breakInTry 6])
            [.tryBody 0 true, .slots 0 0, .body 6 .void none,
              .slots 0 0, .tryBody 21 true, .slots 0 0, .plain,
              .slots 0 0]
            (.jump { pos := 39, type := .nothing } .break
              Sample.emptyNode true (some 6)) :=
        .there (.head _) (.there (.head _)
          (.there (.tail _ (.tail _ (.tail _ (.head _))))
            (.there (.head _) (.there (.head _)
              (.there (.head _) hInner)))))
      have hOuter :=
        hOutermost _ (List.mem_singleton.mpr rfl) _ _ _ _ _
          hOccurs (Or.inl rfl)
      exact absurd hOuter (by decide)

end Ydsh
