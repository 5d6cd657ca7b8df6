import Ydsh.Code.CodeTraces

/-
  The loop a break or continue belongs to.

  The checker attributes a jump to the loop whose body it is
  in; the generator takes the innermost loop it has labels
  for, and it has them in the header of a loop, too.  The two
  agree unless a jump stands in the header of a loop, outside
  of any loop body there.

  Main declarations:
    * `JumpsInBodies`
    * `JumpRecord.TargetsCheckedLoop`
    * `Place`
    * `Placed`
    * `generate_targets_iff`
-/

----
-- Jumps in Loop Bodies
----

namespace Ydsh

/-
  Whether the innermost loop around a node has the node in its
  body, when one more part is entered.
-/
def enterBody (label : Part) (inBody : Bool) : Bool :=
  match label with
  | .header _ _ _ => false
  | .body _ _ _ => true
  | .function _ => true
  | .userDefinedCmd => true
  | .module => true
  | _ => inBody

def inLoopBody (path : List Part) : Bool :=
  Library.enterAll enterBody path true

/-
  No break or continue of the compiled code stands in the
  initialiser, the condition or the iterator of a loop, except
  inside the body of a loop nested there.
-/
def JumpsInBodies
    (assertion : Bool)
    (nodes : List Node) : Prop :=
  ∀ node ∈ nodes,
    ∀ path ann op exprNode leavingBlock target,
      Library.Occurs (Node.compiledParts assertion) node path
        (.jump ann op exprNode leavingBlock target) →
      op = .break ∨ op = .continue →
      inLoopBody path = true

/-
  Loops nested in one another start at different positions of
  the source text.
-/
def NestedLoopsDistinct (nodes : List Node) : Prop :=
  ∀ node ∈ nodes,
    ∀ path target,
      Library.Occurs Node.parts node path target →
      (path.filterMap Part.loopPos).Nodup

/-
  The jump goes to a label of the loop the checker was in, and
  its value has the type of that loop.
-/
def JumpRecord.TargetsCheckedLoop (record : JumpRecord) : Prop :=
  ∃ loop,
    record.loop = some loop ∧
      record.target = some loop.loopPos ∧
        record.Leaves (.goto (record.targetLabel loop)) ∧
          (record.op = .break → record.valueType ≠ .void →
            loop.loopType.isSameOrBaseTypeOf record.valueType =
              true)

/-
  Every compiled break and continue has a record, and every
  such record is followed by a jump to the checked loop.
-/
structure TargetsAgree
    (assertion : Bool)
    (nodes : List Node)
    (units : List CodeUnit) : Prop where
  recorded :
    ∀ node ∈ nodes,
      ∀ path ann op exprNode leavingBlock target,
        Library.Occurs (Node.compiledParts assertion) node path
          (.jump ann op exprNode leavingBlock target) →
        op = .break ∨ op = .continue →
        ∃ record ∈ jumpRecords units,
          record.pos = ann.pos ∧
            record.op = op ∧ record.target = target
  followed :
    ∀ unit ∈ units,
      ∀ front record back,
        unit.items = front ++ .jump record :: back →
        record.op ≠ .return →
        record.TargetsCheckedLoop ∧
          ∃ ins, record.Leaves ins ∧ record.code ins <+: back

theorem nestedLoopsDistinct_iff (nodes : List Node) :
    NestedLoopsDistinct nodes ↔
      ∀ node ∈ nodes,
        ∀ found ∈ node.occurrences,
          (found.1.filterMap Part.loopPos).Nodup := by
  constructor
  · rintro hDistinct node hNode ⟨path, target⟩ hFound
    exact
      hDistinct node hNode path target
        ((Node.mem_occurrences_iff _ _ _).mp hFound)
  · intro hDistinct node hNode path target hOccurs
    exact
      hDistinct node hNode (path, target)
        ((Node.mem_occurrences_iff _ _ _).mpr hOccurs)

instance (nodes : List Node) :
    Decidable (NestedLoopsDistinct nodes) :=
  decidable_of_iff _ (nestedLoopsDistinct_iff nodes).symm

----
-- Both Stacks Along a Path
----

/- The stacks of the generator and of the checker at a node. -/
structure Place where
  shape : GenShape
  checker : TypeChecker
  inBody : Bool
  seen : List Nat

namespace Place

def enter (label : Part) (place : Place) : Place :=
  { shape := place.shape.enter label
    checker := place.checker.enter label
    inBody := enterBody label place.inBody
    seen := place.seen ++ label.loopPos.toList }

def init (assertion : Bool) : Place :=
  { shape := .toplevel assertion
    checker := .init
    inBody := true
    seen := [] }

theorem enterAll_shape
    (path : List Part)
    (place : Place) :
    (Library.enterAll enter path place).shape =
      Library.enterAll GenShape.enter path place.shape := by
  induction path generalizing place with
  | nil => rfl
  | cons label path ih => exact ih (place.enter label)

theorem enterAll_inBody
    (path : List Part)
    (place : Place) :
    (Library.enterAll enter path place).inBody =
      Library.enterAll enterBody path place.inBody := by
  induction path generalizing place with
  | nil => rfl
  | cons label path ih => exact ih (place.enter label)

end Place

/-
  How the two stacks lie at a node.  In a loop body their
  innermost loops are the same one; in a loop header the
  generator is in a loop that the checker is not in.
-/
structure Placed (place : Place) (node : Node) : Prop where
  accepted : place.checker.visitAll node = true
  toplevel :
    place.checker.toplevel = true → place.checker = .init
  gathered :
    place.checker.fctx.loopLevel ≠ 0 →
      place.checker.breakGather ≠ []
  seen : place.checker.breakGather ⊆ place.seen
  distinct :
    ∀ path target,
      Library.Occurs Node.parts node path target →
      (place.seen ++ path.filterMap Part.loopPos).Nodup
  aligned :
    place.inBody = true →
      place.shape.loops.head?.map LoopShape.loopPos =
        place.checker.breakGather.head?
  header :
    place.inBody = false →
      ∃ loop rest,
        place.shape.loops = loop :: rest ∧
          loop.loopPos ∉ place.checker.breakGather
  range :
    place.inBody = true →
      ∀ loop ∈ place.shape.loops.head?,
        loop.blockIndex < place.shape.localVars.length ∨
          (loop.blockIndex = place.shape.localVars.length ∧
            TypeChecker.isBlock node = true)
  types :
    place.inBody = true →
      ∀ loop ∈ place.shape.loops.head?,
        ∃ types,
          TypeChecker.resolveCoercionOfJumpValue types =
              some loop.loopType ∧
            ∀ path ann exprNode leavingBlock target,
              Library.Occurs Node.parts node path
                (.jump ann .break exprNode leavingBlock
                  target) →
              path.any TypeChecker.leavesGather = false →
              exprNode.isEmptyNode = false →
              exprNode.type ∈ types

----
-- Parts of Known Nodes
----

theorem mem_each_iff
    {part label : Part}
    {nodes : List Node}
    {node : Node} :
    (label, node) ∈ part.each nodes ↔
      label = part ∧ node ∈ nodes := by
  constructor
  · intro hMem
    rcases List.mem_map.mp hMem with ⟨found, hFound, hEq⟩
    cases hEq
    exact ⟨rfl, hFound⟩
  · rintro ⟨hLabel, hNode⟩
    rw [hLabel]
    exact List.mem_map.mpr ⟨node, hNode, rfl⟩

theorem mem_ofOption_iff
    {part label : Part}
    {optNode : Option Node}
    {node : Node} :
    (label, node) ∈ part.ofOption optNode ↔
      label = part ∧ optNode = some node := by
  cases optNode with
  | none =>
      simp only [Part.ofOption_none, List.not_mem_nil,
        reduceCtorEq, and_false]
  | some found =>
      simp only [Part.ofOption_some, List.mem_singleton,
        Prod.mk.injEq, Option.some.injEq, eq_comm (a := found)]

/- The parts of a block have its slots around them. -/
theorem label_of_block
    {node part : Node}
    {label : Part}
    (hBlock : TypeChecker.isBlock node = true)
    (hPart : (label, part) ∈ node.parts) :
    ∃ offset size, label = .slots offset size := by
  cases node <;>
    simp only [TypeChecker.isBlock, Bool.false_eq_true] at hBlock
  exact ⟨_, _, (mem_each_iff.mp hPart).1⟩

/- Labels inside one code unit that enter no loop. -/
def Part.isInner : Part → Bool
  | header _ _ _ => false
  | body _ _ _ => false
  | function _ => false
  | userDefinedCmd => false
  | module => false
  | _ => true

/- The nodes whose parts are not all inner. -/
def Node.isOuter : Node → Bool
  | loop _ _ _ _ _ _ => true
  | function _ _ _ _ _ _ => true
  | userDefinedCmd _ _ _ _ _ => true
  | source _ _ _ _ => true
  | _ => false

theorem label_of_not_outer
    {node part : Node}
    {label : Part}
    (hOuter : node.isOuter = false)
    (hPart : (label, part) ∈ node.parts) :
    label.isInner = true := by
  cases node <;>
    simp only [Node.isOuter, Bool.true_eq_false] at hOuter <;>
    simp only [Node.parts, List.mem_append, List.mem_cons,
      mem_each_iff, mem_ofOption_iff, List.not_mem_nil,
      or_false, Prod.mk.injEq] at hPart
  case pipeline ann nodes baseIndex lastPipe =>
    rcases hPart with ⟨hLabel, _⟩ | ⟨hLabel, _⟩
    · rw [hLabel]
      rfl
    · cases lastPipe <;> rw [hLabel] <;> rfl
  case case ann exprNode armNodes kind eqHandle matchHandle =>
    rcases hPart with ⟨hLabel, _⟩ | hPattern | ⟨hLabel, _⟩
    · rw [hLabel]
      rfl
    · cases kind with
      | map => cases hPattern
      | ifElse =>
          rw [(mem_each_iff.mp hPattern).1]
          rfl
    · rw [hLabel]
      rfl
  case prefixAssign ann assignNodes exprNode baseIndex varSize =>
    rcases hPart with ⟨hLabel, _⟩ | ⟨hLabel, _⟩
    · cases exprNode <;> rw [hLabel] <;> rfl
    · rw [hLabel]
      rfl
  all_goals grind [Part.isInner]

----
-- One Part Deeper
----

namespace Place

theorem enter_inner_loops
    {label : Part}
    (hInner : label.isInner = true)
    (place : Place) :
    (place.enter label).shape.loops = place.shape.loops := by
  cases label with
  | tryBody pos hasFinally => cases hasFinally <;> rfl
  | catchClause pos hasFinally => cases hasFinally <;> rfl
  | header pos type declared => cases hInner
  | body pos type declared => cases hInner
  | function returnType => cases hInner
  | userDefinedCmd => cases hInner
  | module => cases hInner
  | _ => rfl

theorem enter_inner_localVars
    {label : Part}
    (hInner : label.isInner = true)
    (place : Place) :
    (place.enter label).shape.localVars = place.shape.localVars ∨
      ∃ offset size,
        label = .slots offset size ∧
          (place.enter label).shape.localVars.length =
            place.shape.localVars.length + 1 := by
  cases label with
  | slots offset size =>
      refine Or.inr ⟨offset, size, rfl, ?_⟩
      exact List.length_append
  | tryBody pos hasFinally => cases hasFinally <;> exact Or.inl rfl
  | catchClause pos hasFinally =>
      cases hasFinally <;> exact Or.inl rfl
  | header pos type declared => cases hInner
  | body pos type declared => cases hInner
  | function returnType => cases hInner
  | userDefinedCmd => cases hInner
  | module => cases hInner
  | _ => exact Or.inl rfl

theorem enter_inner_checker
    {label : Part}
    (hInner : label.isInner = true)
    (place : Place) :
    (place.enter label).checker.breakGather =
        place.checker.breakGather ∧
      (place.enter label).checker.fctx.loopLevel =
          place.checker.fctx.loopLevel ∧
        (place.enter label).checker.toplevel = false ∧
          (place.enter label).inBody = place.inBody ∧
            (place.enter label).seen = place.seen ∧
              TypeChecker.leavesGather label = false := by
  have hSeen : place.seen ++ [] = place.seen := List.append_nil _
  cases label with
  | header pos type declared => cases hInner
  | body pos type declared => cases hInner
  | function returnType => cases hInner
  | userDefinedCmd => cases hInner
  | module => cases hInner
  | _ => exact ⟨rfl, rfl, rfl, rfl, hSeen, rfl⟩

end Place

/- What the paths below a part have seen before. -/
theorem distinct_part
    {place : Place}
    {node part : Node}
    {label : Part}
    (hDistinct :
      ∀ path target,
        Library.Occurs Node.parts node path target →
        (place.seen ++ path.filterMap Part.loopPos).Nodup)
    (hPart : (label, part) ∈ node.parts)
    (path : List Part)
    (target : Node)
    (hOccurs : Library.Occurs Node.parts part path target) :
    ((place.enter label).seen ++
      path.filterMap Part.loopPos).Nodup := by
  have hAll :=
    hDistinct (label :: path) target
      (Library.Occurs.there hPart hOccurs)
  have hSeen :
      (place.enter label).seen ++ path.filterMap Part.loopPos =
        place.seen ++
          (label :: path).filterMap Part.loopPos := by
    cases hPos : label.loopPos with
    | none =>
        rw [List.filterMap_cons_none hPos]
        simp only [Place.enter, hPos, Option.toList_none,
          List.append_nil]
    | some pos =>
        rw [List.filterMap_cons_some hPos]
        simp only [Place.enter, hPos, Option.toList_some,
          List.append_assoc, List.singleton_append]
  rw [hSeen]
  exact hAll

theorem placed_inner
    {place : Place}
    {node part : Node}
    {label : Part}
    (hPlaced : Placed place node)
    (hPart : (label, part) ∈ node.parts)
    (hInner : label.isInner = true) :
    Placed (place.enter label) part := by
  have hLoops := Place.enter_inner_loops hInner place
  rcases Place.enter_inner_checker hInner place with
    ⟨hGather, hLevel, hToplevel, hInBody, hSeen, hLeaves⟩
  exact
    { accepted :=
        TypeChecker.visitAll_part hPlaced.accepted hPart
      toplevel := by
        intro hTop
        rw [hToplevel] at hTop
        cases hTop
      gathered := by
        rw [hGather, hLevel]
        exact hPlaced.gathered
      seen := by
        rw [hGather, hSeen]
        exact hPlaced.seen
      distinct := distinct_part hPlaced.distinct hPart
      aligned := by
        rw [hLoops, hGather, hInBody]
        exact hPlaced.aligned
      header := by
        rw [hLoops, hGather, hInBody]
        exact hPlaced.header
      range := by
        rw [hLoops, hInBody]
        intro hBody loop hLoop
        have hRange := hPlaced.range hBody loop hLoop
        rcases Place.enter_inner_localVars hInner place with
          hVars | ⟨offset, size, hSlots, hVars⟩
        · rw [hVars]
          rcases hRange with hLt | ⟨_, hBlock⟩
          · exact Or.inl hLt
          · rcases label_of_block hBlock hPart with
              ⟨offset, size, hSlots⟩
            rw [hSlots] at hVars
            have hLength := congrArg List.length hVars
            rw [Place.enter, GenShape.enter, GenShape.enterSlots,
              List.length_append] at hLength
            exact absurd hLength (Nat.succ_ne_self _)
        · rw [hVars]
          rcases hRange with hLt | ⟨hEq, _⟩
          · exact Or.inl (Nat.lt_succ_of_lt hLt)
          · exact Or.inl (Nat.lt_succ_of_le (Nat.le_of_eq hEq))
      types := by
        rw [hLoops, hInBody]
        intro hBody loop hLoop
        rcases hPlaced.types hBody loop hLoop with
          ⟨types, hResolve, hTypes⟩
        refine ⟨types, hResolve, ?_⟩
        intro path ann exprNode leavingBlock target hOccurs
          hPath hExpr
        refine
          hTypes (label :: path) ann exprNode leavingBlock target
            (Library.Occurs.there hPart hOccurs) ?_ hExpr
        rw [List.any_cons, hLeaves, hPath]
        rfl }

theorem placed_loop
    {place : Place}
    {ann : Ann}
    {initNode iterNode blockNode part : Node}
    {condNode : Option Node}
    {doWhile : Bool}
    {label : Part}
    (hPlaced :
      Placed place
        (.loop ann initNode condNode iterNode blockNode
          doWhile))
    (hPart :
      (label, part) ∈
        (Node.loop ann initNode condNode iterNode blockNode
          doWhile).parts) :
    Placed (place.enter label) part := by
  have hAccepted :=
    TypeChecker.visitAll_part hPlaced.accepted hPart
  have hDistinct := distinct_part hPlaced.distinct hPart
  have hVisit := TypeChecker.visitAll_node hPlaced.accepted
  have hNew : ann.pos ∉ place.seen := by
    have hNodup :=
      hPlaced.distinct
        [.body ann.pos ann.type initNode.declaredVarIndex]
        blockNode
        (Library.Occurs.there
          (List.mem_cons_of_mem _
            (List.mem_append_right _
              (List.mem_cons_of_mem _ List.mem_cons_self)))
          (Library.Occurs.here blockNode))
    intro hSeen
    exact
      (List.nodup_append.mp hNodup).2.2 ann.pos hSeen ann.pos
        List.mem_cons_self rfl
  have hHeader :
      label =
          .header ann.pos ann.type initNode.declaredVarIndex →
        Placed (place.enter label) part := by
    intro hLabel
    subst hLabel
    exact
      { accepted := hAccepted
        toplevel := by rintro ⟨⟩
        gathered := hPlaced.gathered
        seen := fun pos hPos =>
          List.mem_append_left _ (hPlaced.seen hPos)
        distinct := hDistinct
        aligned := by rintro ⟨⟩
        header := fun _ =>
          ⟨_, _, rfl, fun hPos => hNew (hPlaced.seen hPos)⟩
        range := by rintro ⟨⟩
        types := by rintro ⟨⟩ }
  simp only [Node.parts, List.mem_cons, List.mem_append,
    mem_ofOption_iff, Prod.mk.injEq, List.not_mem_nil,
    or_false] at hPart
  rcases hPart with
    ⟨hLabel, _⟩ | ⟨hLabel, _⟩ | ⟨hLabel, _⟩ | ⟨hLabel, hBlock⟩
  · exact hHeader hLabel
  · exact hHeader hLabel
  · exact hHeader hLabel
  · subst hLabel
    subst hBlock
    have hChecks := (Bool.and_eq_true _ _).mp hVisit
    exact
      { accepted := hAccepted
        toplevel := by rintro ⟨⟩
        gathered := by rintro _ ⟨⟩
        seen := by
          intro pos hPos
          rcases List.mem_cons.mp hPos with hHead | hTail
          · rw [hHead]
            exact List.mem_append_right _ List.mem_cons_self
          · exact List.mem_append_left _ (hPlaced.seen hTail)
        distinct := hDistinct
        aligned := fun _ => rfl
        header := by rintro ⟨⟩
        range := by
          intro _ loop hLoop
          cases hLoop
          refine Or.inr ⟨?_, hChecks.1⟩
          simp only [Place.enter, GenShape.enter,
            GenShape.enterLoop, List.length_append,
            List.length_singleton]
        types := by
          intro _ loop hLoop
          cases hLoop
          refine ⟨_, beq_iff_eq.mp hChecks.2, ?_⟩
          intro path found exprNode leavingBlock target hOccurs
            hPath hExpr
          exact
            TypeChecker.mem_gatherBreaks hOccurs hPath hExpr }

theorem placed_unit
    {place : Place}
    {node part : Node}
    {label : Part}
    (hPlaced : Placed place node)
    (hPart : (label, part) ∈ node.parts)
    (hEnter :
      (place.enter label).checker.breakGather = [] ∧
        (place.enter label).checker.fctx.loopLevel = 0 ∧
          ((place.enter label).checker.toplevel = true →
            (place.enter label).checker = .init) ∧
            (place.enter label).inBody = true ∧
              (place.enter label).shape.loops = []) :
    Placed (place.enter label) part := by
  rcases hEnter with ⟨hGather, hLevel, hInit, hBody, hLoops⟩
  exact
    { accepted :=
        TypeChecker.visitAll_part hPlaced.accepted hPart
      toplevel := hInit
      gathered := fun hLoop => absurd hLevel hLoop
      seen := by
        rw [hGather]
        exact List.nil_subset _
      distinct := distinct_part hPlaced.distinct hPart
      aligned := by
        intro _
        rw [hGather, hLoops]
        rfl
      header := by
        intro hHeader
        rw [hBody] at hHeader
        cases hHeader
      range := by
        intro _ loop hLoop
        rw [hLoops] at hLoop
        cases hLoop
      types := by
        intro _ loop hLoop
        rw [hLoops] at hLoop
        cases hLoop }

theorem placed_part
    (place : Place)
    (node : Node)
    (label : Part)
    (part : Node)
    (hPlaced : Placed place node)
    (hPart : (label, part) ∈ node.parts) :
    Placed (place.enter label) part := by
  cases hOuter : node.isOuter with
  | false =>
      exact
        placed_inner hPlaced hPart
          (label_of_not_outer hOuter hPart)
  | true =>
      have hVisit := TypeChecker.visitAll_node hPlaced.accepted
      cases node <;>
        simp only [Node.isOuter, Bool.false_eq_true] at hOuter
      case loop ann initNode condNode iterNode blockNode doWhile =>
        exact placed_loop hPlaced hPart
      case function | userDefinedCmd =>
        have hToplevel := ((Bool.and_eq_true _ _).mp hVisit).1
        have hInit := hPlaced.toplevel hToplevel
        cases List.mem_singleton.mp hPart
        refine placed_unit hPlaced hPart ?_
        simp only [Place.enter, TypeChecker.enter, hInit]
        exact ⟨rfl, rfl, nofun, rfl, rfl⟩
      case source ann nodes maxVarNum modIndex =>
        have hLabel := (mem_each_iff.mp hPart).1
        subst hLabel
        exact
          placed_unit hPlaced hPart
            ⟨rfl, rfl, fun _ => rfl, rfl, rfl⟩

----
-- Jumps
----

theorem placed_init
    {assertion : Bool}
    {nodes : List Node}
    {node : Node}
    (hAccepts : TypeChecker.Accepts nodes)
    (hDistinct : NestedLoopsDistinct nodes)
    (hNode : node ∈ nodes) :
    Placed (.init assertion) node where
  accepted := hAccepts node hNode
  toplevel := fun _ => rfl
  gathered := fun hLoop => absurd rfl hLoop
  seen := List.nil_subset _
  distinct := hDistinct node hNode
  aligned := fun _ => rfl
  header := nofun
  range := by rintro _ _ ⟨⟩
  types := by rintro _ _ ⟨⟩

theorem placed_of_occurs
    (assertion : Bool)
    {nodes : List Node}
    {node target : Node}
    {path : List Part}
    (hAccepts : TypeChecker.Accepts nodes)
    (hDistinct : NestedLoopsDistinct nodes)
    (hNode : node ∈ nodes)
    (hOccurs : Library.Occurs Node.parts node path target) :
    Placed
      (Library.enterAll Place.enter path (.init assertion))
      target :=
  Library.Occurs.invariant Place.enter Placed placed_part
    hOccurs _ (placed_init hAccepts hDistinct hNode)

/- The trace of a break or continue is a record of its loop. -/
theorem breakTrace_of_placed
    {place : Place}
    {ann : Ann}
    {op : JumpOp}
    {exprNode : Node}
    {leavingBlock : Bool}
    {target : Option Nat}
    (hPlaced :
      Placed place
        (.jump ann op exprNode leavingBlock target))
    (hOp : op = .break ∨ op = .continue)
    (hBody : place.inBody = true) :
    ∃ loop,
      place.shape.breakTrace ann.pos op exprNode.type
            leavingBlock target =
          .jump
            { pos := ann.pos
              op
              valueType := exprNode.type
              leavingBlock
              target
              loop := some loop
              known := place.shape.tries
              entered :=
                if leavingBlock then place.shape.tries else [] } ∧
        target = some loop.loopPos ∧
          (op = .break → exprNode.type ≠ .void →
            loop.loopType.isSameOrBaseTypeOf exprNode.type =
              true) := by
  have hVisit := TypeChecker.visitAll_node hPlaced.accepted
  simp only [TypeChecker.visit, Bool.and_eq_true, beq_iff_eq,
    Bool.or_eq_true, Bool.not_eq_true'] at hVisit
  rcases hVisit with ⟨⟨hJump, _⟩, hEmpty⟩
  have hCheck :
      place.checker.checkTypeAsBreakContinue op exprNode =
        .ok (leavingBlock, target) := by
    rcases hOp with hOp | hOp
    · subst hOp
      exact hJump
    · subst hOp
      exact hJump
  rcases TypeChecker.checkTypeAsBreakContinue_ok hCheck with
    ⟨hLoop, _, _, _, hTarget⟩
  have hGather := hPlaced.gathered hLoop
  have hAligned := hPlaced.aligned hBody
  cases hLoops : place.shape.loops with
  | nil =>
      rw [hLoops] at hAligned
      cases hHead : place.checker.breakGather with
      | nil => exact absurd hHead hGather
      | cons pos rest =>
          rw [hHead] at hAligned
          cases hAligned
  | cons loop rest =>
      have hHead : loop ∈ place.shape.loops.head? := by
        rw [hLoops]
        rfl
      have hRange :
          loop.blockIndex < place.shape.localVars.length := by
        rcases hPlaced.range hBody loop hHead with hLt | ⟨_, hIs⟩
        · exact hLt
        · cases hIs
      refine ⟨loop, ?_, ?_, ?_⟩
      · unfold GenShape.breakTrace
        rw [hLoops]
        dsimp only
        rw [if_pos hRange]
      · rw [hTarget, ← hAligned, hLoops]
        rfl
      · intro hBreak hType
        subst hBreak
        rcases hPlaced.types hBody loop hHead with
          ⟨types, hResolve, hTypes⟩
        refine
          TypeChecker.resolveCoercionOfJumpValue_base hResolve ?_
        refine
          hTypes [] ann exprNode leavingBlock target
            (Library.Occurs.here _) rfl ?_
        rcases hEmpty with hNot | hVoid
        · exact hNot
        · exact absurd hVoid hType

/- In a loop header the generator never meets the target. -/
theorem header_of_placed
    {place : Place}
    {ann : Ann}
    {op : JumpOp}
    {exprNode : Node}
    {leavingBlock : Bool}
    {target : Option Nat}
    (hPlaced :
      Placed place
        (.jump ann op exprNode leavingBlock target))
    (hOp : op = .break ∨ op = .continue)
    (hHeader : place.inBody = false) :
    place.shape.breakTrace ann.pos op exprNode.type leavingBlock
          target =
        .fault .blockIndexOutOfRange ∨
      ∃ trace loop,
        place.shape.breakTrace ann.pos op exprNode.type
              leavingBlock target =
            .jump trace ∧
          trace.op = op ∧
            trace.loop = some loop ∧
              trace.target ≠ some loop.loopPos := by
  have hVisit := TypeChecker.visitAll_node hPlaced.accepted
  simp only [TypeChecker.visit, Bool.and_eq_true, beq_iff_eq]
    at hVisit
  have hCheck :
      place.checker.checkTypeAsBreakContinue op exprNode =
        .ok (leavingBlock, target) := by
    rcases hOp with hOp | hOp
    · subst hOp
      exact hVisit.1.1
    · subst hOp
      exact hVisit.1.1
  rcases TypeChecker.checkTypeAsBreakContinue_ok hCheck with
    ⟨_, _, _, _, hTarget⟩
  rcases hPlaced.header hHeader with ⟨loop, rest, hLoops, hPos⟩
  unfold GenShape.breakTrace
  rw [hLoops]
  dsimp only
  split
  · refine Or.inr ⟨_, loop, rfl, rfl, rfl, ?_⟩
    intro hSame
    rw [hTarget] at hSame
    exact hPos (List.mem_of_mem_head? hSame)
  · exact Or.inl rfl

/- The traces of a script are those of the jumps in it. -/
theorem mem_script_traces_iff
    (assertion : Bool)
    (nodes : List Node)
    (trace : Trace) :
    trace ∈ listTraces assertion (.toplevel assertion) nodes ↔
      ∃ node ∈ nodes,
        ∃ path target,
          Library.Occurs (Node.compiledParts assertion) node path
              target ∧
            trace ∈
              (Library.enterAll Place.enter path
                (.init assertion)).shape.own target := by
  rw [mem_listTraces_iff]
  constructor
  · rintro ⟨node, hNode, path, target, hOccurs, hOwn⟩
    refine ⟨node, hNode, path, target, hOccurs, ?_⟩
    rw [Place.enterAll_shape]
    exact hOwn
  · rintro ⟨node, hNode, path, target, hOccurs, hOwn⟩
    rw [Place.enterAll_shape] at hOwn
    exact ⟨node, hNode, path, target, hOccurs, hOwn⟩

theorem breakTrace_mem_own
    {shape : GenShape}
    {ann : Ann}
    {op : JumpOp}
    {exprNode : Node}
    {leavingBlock : Bool}
    {target : Option Nat}
    (hOp : op = .break ∨ op = .continue) :
    shape.breakTrace ann.pos op exprNode.type leavingBlock
        target ∈
      shape.own (.jump ann op exprNode leavingBlock target) := by
  rcases hOp with hIs | hIs
  · subst hIs
    exact rfl
  · subst hIs
    exact rfl

/- Only jumps have traces of their own. -/
theorem own_cases
    {shape : GenShape}
    {target : Node}
    {trace : Trace}
    (hOwn : trace ∈ shape.own target) :
    ∃ ann op exprNode leavingBlock loopPos,
      target = .jump ann op exprNode leavingBlock loopPos ∧
        ((op = .return ∧
            trace = shape.returnTrace ann.pos exprNode.type) ∨
          ((op = .break ∨ op = .continue) ∧
            trace =
              shape.breakTrace ann.pos op exprNode.type
                leavingBlock loopPos)) := by
  cases target with
  | jump ann op exprNode leavingBlock loopPos =>
      refine
        ⟨ann, op, exprNode, leavingBlock, loopPos, rfl, ?_⟩
      cases op with
      | «throw» => cases hOwn
      | «return» => exact Or.inl ⟨rfl, hOwn⟩
      | «break» => exact Or.inr ⟨Or.inl rfl, hOwn⟩
      | «continue» => exact Or.inr ⟨Or.inr rfl, hOwn⟩
  | _ => cases hOwn

----
-- Targets of Both Sides
----

section

variable {assertion : Bool}
variable {nodes : List Node}
variable {units : List CodeUnit}
variable {maxVarIndex : Nat}

/- In bodies the traces of a script are records of its loops. -/
theorem traces_in_bodies
    (hAccepts : TypeChecker.Accepts nodes)
    (hDistinct : NestedLoopsDistinct nodes)
    (hBodies : JumpsInBodies assertion nodes)
    {trace : Trace}
    (hTrace :
      trace ∈ listTraces assertion (.toplevel assertion) nodes) :
    ∃ found,
      trace = .jump found ∧
        (found.op ≠ .return →
          ∃ loop,
            found.loop = some loop ∧
              found.target = some loop.loopPos ∧
                (found.op = .break → found.valueType ≠ .void →
                  loop.loopType.isSameOrBaseTypeOf
                    found.valueType = true)) := by
  rcases (mem_script_traces_iff assertion nodes trace).mp
      hTrace with ⟨node, hNode, path, target, hOccurs, hOwn⟩
  rcases own_cases hOwn with
    ⟨ann, op, exprNode, leavingBlock, loopPos, hTarget, hCases⟩
  subst hTarget
  rcases hCases with ⟨_, hReturn⟩ | ⟨hOp, hBreak⟩
  · exact ⟨_, hReturn, fun hNot => absurd rfl hNot⟩
  · have hBody :=
      hBodies node hNode path ann op exprNode leavingBlock loopPos
        hOccurs hOp
    have hPlaced :=
      placed_of_occurs assertion hAccepts
        hDistinct hNode
        (hOccurs.mono (Node.compiledParts_subset assertion))
    rcases breakTrace_of_placed hPlaced hOp
        ((Place.enterAll_inBody path _).trans hBody) with
      ⟨loop, hJump, hPos, hType⟩
    exact
      ⟨_, hBreak.trans hJump,
        fun _ => ⟨loop, rfl, hPos, hType⟩⟩

/- A record has the loop and the target of its trace. -/
theorem targetsCheckedLoop_of_trace
    {record : JumpRecord}
    {loop : LoopShape}
    (hLoop : record.trace.loop = some loop)
    (hTarget : record.trace.target = some loop.loopPos)
    (hType :
      record.trace.op = .break →
        record.trace.valueType ≠ .void →
          loop.loopType.isSameOrBaseTypeOf
            record.trace.valueType = true) :
    record.TargetsCheckedLoop := by
  rcases Option.map_eq_some_iff.mp hLoop with
    ⟨state, hState, hShape⟩
  subst hShape
  refine ⟨state, hState, hTarget, ?_, hType⟩
  unfold JumpRecord.Leaves
  rw [hState]

theorem mem_jumpRecords
    {unit : CodeUnit}
    {front back : List Item}
    {record : JumpRecord}
    (hUnit : unit ∈ units)
    (hItems : unit.items = front ++ .jump record :: back) :
    record ∈ jumpRecords units := by
  refine List.mem_flatMap.mpr ⟨unit, hUnit, ?_⟩
  refine List.mem_filterMap.mpr ⟨.jump record, ?_, rfl⟩
  rw [hItems]
  exact List.mem_append_right _ List.mem_cons_self

theorem generate_of_bodies
    (hAccepts : TypeChecker.Accepts nodes)
    (hDistinct : NestedLoopsDistinct nodes)
    (hBodies : JumpsInBodies assertion nodes) :
    ∃ units,
      generate assertion nodes maxVarIndex = .ok units ∧
        TargetsAgree assertion nodes units := by
  have hTraces :=
    generate_traces assertion nodes maxVarIndex hAccepts
  split at hTraces
  next kind hError =>
    rcases traces_in_bodies hAccepts hDistinct hBodies hTraces
      with ⟨found, hFound, _⟩
    cases hFound
  next units hOk =>
    rcases hTraces with ⟨_, hRecords, hFollowed⟩
    refine ⟨units, hOk, ?_, ?_⟩
    · intro node hNode path ann op exprNode leavingBlock target
        hOccurs hOp
      have hBody :=
        hBodies node hNode path ann op exprNode leavingBlock
          target hOccurs hOp
      have hPlaced :=
        placed_of_occurs assertion hAccepts
          hDistinct hNode
          (hOccurs.mono (Node.compiledParts_subset assertion))
      rcases breakTrace_of_placed hPlaced hOp
          ((Place.enterAll_inBody path _).trans hBody) with
        ⟨loop, hJump, _, _⟩
      have hMem :=
        (mem_script_traces_iff assertion nodes _).mpr
          ⟨node, hNode, path, _, hOccurs,
            breakTrace_mem_own hOp⟩
      rw [hJump] at hMem
      rcases (hRecords _).mpr hMem with ⟨record, hRecord, hEq⟩
      refine ⟨record, hRecord, ?_, ?_, ?_⟩
      · exact congrArg JumpTrace.pos hEq
      · exact congrArg JumpTrace.op hEq
      · exact congrArg JumpTrace.target hEq
    · intro unit hUnit front record back hItems hOp
      refine
        ⟨?_, (hFollowed unit hUnit front record back hItems).1⟩
      have hMem :=
        (hRecords record.trace).mp
          ⟨record, mem_jumpRecords hUnit hItems, rfl⟩
      rcases traces_in_bodies hAccepts hDistinct hBodies hMem
        with ⟨found, hFound, hAgrees⟩
      cases hFound
      rcases hAgrees hOp with ⟨loop, hLoop, hTarget, hType⟩
      exact targetsCheckedLoop_of_trace hLoop hTarget hType

theorem bodies_of_generate
    (hAccepts : TypeChecker.Accepts nodes)
    (hDistinct : NestedLoopsDistinct nodes)
    (hOk : generate assertion nodes maxVarIndex = .ok units)
    (hAgree : TargetsAgree assertion nodes units) :
    JumpsInBodies assertion nodes := by
  intro node hNode path ann op exprNode leavingBlock target
    hOccurs hOp
  have hTraces :=
    generate_traces assertion nodes maxVarIndex hAccepts
  rw [hOk] at hTraces
  rcases hTraces with ⟨hFaults, hRecords, _⟩
  have hPlaced :=
    placed_of_occurs assertion hAccepts hDistinct
      hNode (hOccurs.mono (Node.compiledParts_subset assertion))
  have hMem :=
    (mem_script_traces_iff assertion nodes _).mpr
      ⟨node, hNode, path, _, hOccurs, breakTrace_mem_own hOp⟩
  cases hBody : inLoopBody path with
  | true => rfl
  | false =>
      -- the record of a jump in a header names another loop
      rcases header_of_placed hPlaced hOp
          ((Place.enterAll_inBody path _).trans hBody) with
        hFault | ⟨trace, loop, hJump, hTraceOp, hLoop, hNot⟩
      · rw [hFault] at hMem
        exact absurd hMem (hFaults _)
      · rw [hJump] at hMem
        rcases (hRecords trace).mpr hMem with
          ⟨record, hRecord, hEq⟩
        rcases List.mem_flatMap.mp hRecord with
          ⟨unit, hUnit, hItem⟩
        rcases List.mem_filterMap.mp hItem with
          ⟨item, hIn, hIs⟩
        rcases List.append_of_mem hIn with ⟨front, back, hItems⟩
        cases item <;> cases hIs
        have hNotReturn : record.op ≠ .return := by
          have hSame := congrArg JumpTrace.op hEq
          intro hReturn
          rw [hTraceOp] at hSame
          rcases hOp with hOp | hOp
          · rw [hOp] at hSame
            exact nomatch hReturn.symm.trans hSame
          · rw [hOp] at hSame
            exact nomatch hReturn.symm.trans hSame
        rcases (hAgree.followed unit hUnit front record back
            hItems hNotReturn).1 with
          ⟨state, hState, hTarget, _⟩
        have hSameLoop := congrArg JumpTrace.loop hEq
        have hSameTarget := congrArg JumpTrace.target hEq
        rw [hLoop] at hSameLoop
        simp only [JumpRecord.trace, hState, Option.map_some,
          Option.some.injEq] at hSameLoop
        rw [← hSameLoop] at hNot
        exact absurd (hSameTarget.symm.trans hTarget) hNot

/-
  Checker and generator agree on the loop of every break and
  continue, and no lookup of the generator fails, exactly if
  the jumps of the compiled code are in loop bodies.
-/
theorem generate_targets_iff
    (assertion : Bool)
    (nodes : List Node)
    (maxVarIndex : Nat)
    (hAccepts : TypeChecker.Accepts nodes)
    (hDistinct : NestedLoopsDistinct nodes) :
    (∃ units,
      generate assertion nodes maxVarIndex = .ok units ∧
        TargetsAgree assertion nodes units) ↔
      JumpsInBodies assertion nodes := by
  constructor
  · rintro ⟨units, hOk, hAgree⟩
    exact bodies_of_generate hAccepts hDistinct hOk hAgree
  · exact generate_of_bodies hAccepts hDistinct

end

----
-- A Jump in a Header
----

namespace Sample

def trueNode (pos : Nat) : Node :=
  .var { pos, type := .boolean } "TRUE" 0
    { global := true
      env := false
      random := false
      seconds := false
      modConst := false }

def emptyNode : Node := .empty { pos := 0, type := .void }

def breakNode (pos target : Nat) : Node :=
  .jump { pos, type := .nothing } .break emptyNode false
    (some target)

def continueNode (target : Nat) : Node :=
  .jump { pos := 0, type := .nothing } .continue emptyNode false
    (some target)

def whileNode
    (pos : Nat)
    (condNode : Node)
    (nodes : List Node) : Node :=
  .loop { pos, type := .void } emptyNode (some condNode)
    emptyNode
    (.block { pos, type := .nothing } nodes 0 0 0)
    false

/- `while (true) { break }` -/
def breakInBody : Node :=
  whileNode 0 (trueNode 7) [breakNode 15 0]

/- `while (true) { while (break) { } }` -/
def breakInHeader : Node :=
  whileNode 0 (trueNode 7)
    [whileNode 15 (breakNode 22 0) [continueNode 15],
      continueNode 0]

end Sample

theorem generate_targets_breakInBody :
    (∃ units,
      generate true [Sample.breakInBody] 0 = .ok units ∧
        TargetsAgree true [Sample.breakInBody] units) ↔
      JumpsInBodies true [Sample.breakInBody] :=
  generate_targets_iff true [Sample.breakInBody] 0
    (by decide +kernel) (by decide +kernel)

/- The generator looks for a local range that is not there. -/
theorem breakInHeader_fault :
    TypeChecker.Accepts [Sample.breakInHeader] ∧
      NestedLoopsDistinct [Sample.breakInHeader] ∧
        generate true [Sample.breakInHeader] 0 =
            .error .blockIndexOutOfRange ∧
          ¬ ∃ units,
              generate true [Sample.breakInHeader] 0 =
                  .ok units ∧
                TargetsAgree true [Sample.breakInHeader]
                  units := by
  have hFault :
      generate true [Sample.breakInHeader] 0 =
        .error .blockIndexOutOfRange := by
    decide +kernel
  refine ⟨by decide +kernel, by decide +kernel, hFault, ?_⟩
  rintro ⟨units, hOk, _⟩
  rw [hFault] at hOk
  cases hOk

end Ydsh
