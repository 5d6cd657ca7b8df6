import Ydsh.Library.Occurrence
import Ydsh.Syntax.Node

/-
  The parts of a node.

  Every node under another one is a part of it, labelled by
  the constructs it is nested in there.  A path of labels says
  where in a script a node occurs.

  Main declarations:
    * `Part`
    * `Node.parts`
    * `Node.compiledParts`
    * `Node.occurrences`
-/

----
-- Parts
----

namespace Ydsh

/-
  How a node is nested in its parent.  The `header` of a loop
  is its initialiser, its condition and its iterator; a loop
  is known by its position and its type, a try by its position.
-/
inductive Part where
  | plain
  | slots (offset size : Nat)
  | header (pos : Nat) (type : DSType) (declared : Option Nat)
  | body (pos : Nat) (type : DSType) (declared : Option Nat)
  | tryBody (pos : Nat) (hasFinally : Bool)
  | catchClause (pos : Nat) (hasFinally : Bool)
  | finallyBlock (pos : Nat)
  | child
  | function (returnType : DSType)
  | userDefinedCmd
  | module
  deriving DecidableEq, Repr

namespace Part

def each (part : Part) (nodes : List Node) : List (Part × Node) :=
  nodes.map (fun node => (part, node))

def ofOption
    (part : Part) : Option Node → List (Part × Node)
  | none => []
  | some node => [(part, node)]

/- The position of the loop a part belongs to. -/
def loopPos : Part → Option Nat
  | header pos _ _ => some pos
  | body pos _ _ => some pos
  | _ => none

@[simp] theorem each_nil (part : Part) :
    part.each [] = [] := rfl

@[simp] theorem each_cons
    (part : Part)
    (node : Node)
    (nodes : List Node) :
    part.each (node :: nodes) =
      (part, node) :: part.each nodes := rfl

@[simp] theorem ofOption_none (part : Part) :
    part.ofOption none = [] := rfl

@[simp] theorem ofOption_some (part : Part) (node : Node) :
    part.ofOption (some node) = [(part, node)] := rfl

end Part

namespace Node

/- The patterns of the arms compiled to a chain of tests. -/
def patternNodes : Node → List Node
  | arm _ patternNodes _ => patternNodes
  | _ => []

/- The parts of a node, in the order the checker visits them. -/
def parts : Node → List (Part × Node)
  | number _ _ _ => []
  | string _ _ _ => []
  | stringExpr _ exprNodes => Part.plain.each exprNodes
  | regex _ _ => []
  | array _ exprNodes => Part.plain.each exprNodes
  | map _ keyNodes valueNodes =>
      Part.plain.each keyNodes ++ Part.plain.each valueNodes
  | tuple _ nodes => Part.plain.each nodes
  | var _ _ _ _ => []
  | access _ recvNode _ _ => [(.plain, recvNode)]
  | typeOp _ exprNode _ => [(.plain, exprNode)]
  | unaryOp _ operand _ => [(.plain, operand)]
  | binaryOp _ _ leftNode rightNode _ =>
      [(.plain, leftNode), (.plain, rightNode)]
  | binaryApply _ optNode => [(.plain, optNode)]
  | apply _ exprNode args _ =>
      (.plain, exprNode) :: Part.plain.each args
  | new _ args _ => Part.plain.each args
  | embed _ exprNode _ => [(.plain, exprNode)]
  | cmd _ _ _ argNodes _ _ => Part.plain.each argNodes
  | cmdArg _ segmentNodes _ => Part.plain.each segmentNodes
  | argArray _ cmdArgNodes => Part.plain.each cmdArgNodes
  | redir _ targetNode _ => [(.plain, targetNode)]
  | wildCard _ _ => []
  | pipeline _ nodes baseIndex lastPipe =>
      Part.child.each nodes.dropLast ++
        (if lastPipe then
          Part.slots baseIndex 1
        else
          Part.plain).ofOption nodes.getLast?
  | .with _ exprNode redirNodes baseIndex =>
      (.slots baseIndex 1, exprNode) ::
        (Part.slots baseIndex 1).each redirNodes
  | fork _ exprNode _ => [(.child, exprNode)]
  | assert _ condNode messageNode =>
      [(.plain, condNode), (.plain, messageNode)]
  | block _ nodes baseIndex varSize _ =>
      (Part.slots baseIndex varSize).each nodes
  | typeAlias _ => []
  | loop ann initNode condNode iterNode blockNode _ =>
      let header :=
        Part.header ann.pos ann.type initNode.declaredVarIndex
      (header, initNode) ::
        (header.ofOption condNode ++
          [(header, iterNode),
            (.body ann.pos ann.type initNode.declaredVarIndex,
              blockNode)])
  | ifElse _ condNode thenNode elseNode =>
      [(.plain, condNode), (.plain, thenNode),
        (.plain, elseNode)]
  | case _ exprNode armNodes kind _ _ =>
      (.plain, exprNode) ::
        ((match kind with
          | .map => []
          | .ifElse =>
              Part.plain.each (armNodes.flatMap patternNodes)) ++
          Part.plain.each armNodes)
  | arm _ _ actionNode => [(.plain, actionNode)]
  | jump _ _ exprNode _ _ => [(.plain, exprNode)]
  | .catch _ _ blockNode _ => [(.plain, blockNode)]
  | .try ann exprNode catchNodes finallyNode =>
      (.tryBody ann.pos finallyNode.isSome, exprNode) ::
        ((Part.catchClause ann.pos finallyNode.isSome).each
            catchNodes ++
          (Part.finallyBlock ann.pos).ofOption finallyNode)
  | varDecl _ _ _ exprNode _ _ => Part.plain.ofOption exprNode
  | assign _ leftNode rightNode _ =>
      [(.plain, leftNode), (.plain, rightNode)]
  | elementSelfAssign _ recvNode indexNode getterNode rightNode
      setterNode =>
      [(.plain, recvNode), (.plain, indexNode),
        (.plain, getterNode), (.plain, rightNode),
        (.plain, setterNode)]
  | prefixAssign _ assignNodes exprNode baseIndex varSize =>
      (if exprNode.isSome then
        Part.slots baseIndex varSize
      else
        Part.plain).each assignNodes ++
        (Part.slots baseIndex varSize).ofOption exprNode
  | function _ _ blockNode _ _ funcType =>
      [(.function funcType.returnType, blockNode)]
  | interface _ => []
  | userDefinedCmd _ _ blockNode _ _ =>
      [(.userDefinedCmd, blockNode)]
  | source _ nodes _ _ => Part.module.each nodes
  | codeComp _ => []
  | empty _ => []

/- The parts whose code is generated. -/
def compiledParts
    (assertion : Bool)
    (node : Node) : List (Part × Node) :=
  match node with
  | assert _ _ _ => if assertion then node.parts else []
  | _ => node.parts

theorem compiledParts_subset
    (assertion : Bool)
    (node : Node) :
    node.compiledParts assertion ⊆ node.parts := by
  cases node with
  | assert ann condNode messageNode =>
      cases assertion with
      | false => exact List.nil_subset _
      | true => exact List.Subset.refl _
  | _ => exact List.Subset.refl _

----
-- Occurrences
----

theorem each_sizeOf
    {part label : Part}
    {node : Node}
    {nodes : List Node}
    (hPart : (label, node) ∈ part.each nodes) :
    sizeOf node < sizeOf nodes := by
  rcases List.mem_map.mp hPart with ⟨found, hFound, hEq⟩
  cases hEq
  exact List.sizeOf_lt_of_mem hFound

theorem ofOption_sizeOf
    {part label : Part}
    {node : Node}
    {optNode : Option Node}
    (hPart : (label, node) ∈ part.ofOption optNode) :
    sizeOf node < sizeOf optNode := by
  cases optNode with
  | none => cases hPart
  | some found =>
      rcases List.mem_singleton.mp hPart with ⟨⟩
      simp

theorem dropLast_sizeOf (nodes : List Node) :
    sizeOf nodes.dropLast ≤ sizeOf nodes := by
  induction nodes with
  | nil => exact Nat.le_refl _
  | cons node nodes ih =>
      cases nodes with
      | nil => simp
      | cons next rest =>
          simp only [List.dropLast_cons_cons, List.cons.sizeOf_spec]
            at ih ⊢
          omega

theorem getLast?_sizeOf (nodes : List Node) :
    sizeOf nodes.getLast? ≤ 1 + sizeOf nodes := by
  cases hLast : nodes.getLast? with
  | none => simp
  | some node =>
      have hLt :=
        List.sizeOf_lt_of_mem (List.mem_of_getLast? hLast)
      simp only [Option.some.sizeOf_spec]
      omega

theorem patternNodes_sizeOf (node : Node) :
    sizeOf node.patternNodes ≤ sizeOf node := by
  cases node <;> simp [patternNodes] <;> omega

theorem flatMap_patternNodes_sizeOf
    {node : Node}
    {nodes : List Node}
    (hNode : node ∈ nodes.flatMap patternNodes) :
    sizeOf node < sizeOf nodes := by
  rcases List.mem_flatMap.mp hNode with ⟨arm, hArm, hPattern⟩
  have hArmLt := List.sizeOf_lt_of_mem hArm
  have hPatternLt := List.sizeOf_lt_of_mem hPattern
  have hPatterns := patternNodes_sizeOf arm
  omega

theorem parts_sizeOf
    (node : Node)
    (label : Part)
    (part : Node)
    (hPart : (label, part) ∈ node.parts) :
    sizeOf part < sizeOf node := by
  cases node <;>
    simp only [parts, List.mem_append, List.mem_cons,
      List.not_mem_nil, or_false, Prod.mk.injEq] at hPart
  case pipeline ann nodes baseIndex lastPipe =>
    have hFront := dropLast_sizeOf nodes
    have hLast := getLast?_sizeOf nodes
    rcases hPart with hChild | hPart
    · have hLt := each_sizeOf hChild
      simp only [pipeline.sizeOf_spec]
      omega
    · have hLt := ofOption_sizeOf hPart
      simp only [pipeline.sizeOf_spec]
      omega
  case case ann exprNode armNodes kind eqHandle matchHandle =>
    have hArms :
        sizeOf part < sizeOf exprNode + 1 ∨
          sizeOf part < sizeOf armNodes := by
      rcases hPart with ⟨_, hExpr⟩ | hPattern | hArm
      · rw [hExpr]
        exact Or.inl (Nat.lt_succ_self _)
      · cases kind with
        | map => cases hPattern
        | ifElse =>
            rcases List.mem_map.mp hPattern with
              ⟨found, hFound, hEq⟩
            cases hEq
            exact Or.inr (flatMap_patternNodes_sizeOf hFound)
      · exact Or.inr (each_sizeOf hArm)
    simp only [case.sizeOf_spec]
    omega
  all_goals
    simp
    grind [→ each_sizeOf, → ofOption_sizeOf]

/-
  Every node in a tree with the path to it, in the order the
  checker is done with them.
-/
def occurrences (node : Node) : List (List Part × Node) :=
  node.parts.attach.flatMap
    (fun part =>
      part.1.2.occurrences.map
        (fun found => (part.1.1 :: found.1, found.2))) ++
    [([], node)]
termination_by sizeOf node
decreasing_by exact parts_sizeOf node part.1.1 part.1.2 part.2

theorem mem_occurrences_iff
    (node target : Node)
    (path : List Part) :
    (path, target) ∈ node.occurrences ↔
      Library.Occurs parts node path target := by
  constructor
  · intro hMem
    induction path generalizing node with
    | nil =>
        rw [occurrences] at hMem
        rcases List.mem_append.mp hMem with hThere | hHere
        · rcases List.mem_flatMap.mp hThere with
            ⟨part, _, hFound⟩
          rcases List.mem_map.mp hFound with ⟨found, _, hEq⟩
          cases hEq
        · cases List.mem_singleton.mp hHere
          exact Library.Occurs.here _
    | cons label path ih =>
        rw [occurrences] at hMem
        rcases List.mem_append.mp hMem with hThere | hHere
        · rcases List.mem_flatMap.mp hThere with
            ⟨part, _, hFound⟩
          rcases List.mem_map.mp hFound with
            ⟨⟨inner, last⟩, hInner, hEq⟩
          cases hEq
          exact Library.Occurs.there part.2 (ih _ hInner)
        · cases List.mem_singleton.mp hHere
  · intro hOccurs
    induction hOccurs with
    | here node =>
        rw [occurrences]
        exact List.mem_append_right _ (List.mem_singleton_self _)
    | there hPart _ ih =>
        rw [occurrences]
        exact
          List.mem_append_left _
            (List.mem_flatMap.mpr
              ⟨⟨_, hPart⟩, List.mem_attach _ _,
                List.mem_map.mpr ⟨_, ih, rfl⟩⟩)

end Node

end Ydsh
