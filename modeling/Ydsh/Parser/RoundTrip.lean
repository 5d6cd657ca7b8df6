import Ydsh.Parser.Alternatives

/-
  The text of a tree is parsed to the tree.

  Main declarations:
    * `Node.tree`
    * `parses_render`
    * `parse_render`
-/

----
-- The Tree of a Node
----

namespace Ydsh

namespace Parser

/- The operator of a compound assignment. -/
def assignOpOf : TokenKind → TokenKind
  | .ADD => .ADD_ASSIGN
  | .SUB => .SUB_ASSIGN
  | .MUL => .MUL_ASSIGN
  | .DIV => .DIV_ASSIGN
  | .MOD => .MOD_ASSIGN
  | .STR_CHECK => .STR_ASSIGN
  | .NULL_COALE => .NULL_ASSIGN
  | _ => .INVALID

def binaryTree
    (op : TokenKind)
    (left right : Option Expr) : Option Expr :=
  if h : op.isBinary = true then
    left.bind (fun l => right.map (fun r => .binary l ⟨op, h⟩ r))
  else
    none

/- A pipeline is nested on the left. -/
def pipelineTree : List Expr → Option Expr
  | first :: second :: more =>
      some
        ((second :: more).foldl
          (fun left right => .binary left BinaryOp.pipe right)
          first)
  | _ => none

def redirTrees : List RedirNode → Option (List Redir)
  | [] => some []
  | redir :: redirs =>
      if h : redir.proper = true then
        (redirTrees redirs).map (fun more => ⟨redir, h⟩ :: more)
      else
        none

def unaryTree
    (op : TokenKind)
    (expr : Option Expr) : Option Expr :=
  if h : op.isUnary = true then
    expr.map (.unary ⟨op, h⟩)
  else
    none

def typeOpTree
    (expr : Option Expr)
    (type : TypeNode)
    (isCast : Bool) : Option Expr :=
  if h : type.proper = true then
    expr.map (fun e => .typeOp e ⟨type, h⟩ isCast)
  else
    none

def redirectedTree
    (expr : Option Expr) :
    Option (List Redir) → Option Expr
  | some (redir :: redirs) =>
      expr.map (fun e => .redirected e redir redirs)
  | _ => none

mutual

def Node.tree : Node → Option Expr
  | .number value =>
      if h : value < INT64_RANGE then
        some (.number ⟨value, h⟩)
      else
        none
  | .var name => some (.var name)
  | .unaryOp op expr => unaryTree op expr.tree
  | .binaryOp left op right => binaryTree op left.tree right.tree
  | .assign left right => binaryTree .ASSIGN left.tree right.tree
  | .selfAssign left op right =>
      binaryTree (assignOpOf op) left.tree right.tree
  | .typeOp expr type isCast => typeOpTree expr.tree type isCast
  | .redirected expr redirs =>
      redirectedTree expr.tree (redirTrees redirs)
  | .ternary cond thenNode elseNode =>
      cond.tree.bind
        (fun c =>
          thenNode.tree.bind
            (fun t => elseNode.tree.map (.ternary c t)))
  | .throwNode expr => expr.tree.map .throwExpr
  | .coproc expr => expr.tree.map .coproc
  | .background expr disown =>
      expr.tree.map (fun e => .background e disown)
  | .pipeline nodes => (nodeTrees nodes).bind pipelineTree
  | .prefixAssign (env :: envs) expr =>
      expr.tree.map (.prefixAssign env envs)
  | .prefixAssign [] _ => none
  | .envDecl _ => none

def nodeTrees : List Node → Option (List Expr)
  | [] => some []
  | node :: nodes =>
      node.tree.bind
        (fun e => (nodeTrees nodes).map (fun more => e :: more))

end

theorem binaryTree_some
    (op : BinaryOp)
    (left right : Expr) :
    binaryTree op.1 (some left) (some right) =
      some (.binary left op right) := by
  unfold binaryTree
  rw [dif_pos op.2]
  rfl

theorem redirTrees_map
    (redirs : List Redir) :
    redirTrees (redirs.map Subtype.val) = some redirs := by
  induction redirs with
  | nil => rfl
  | cons redir redirs ih =>
      rw [List.map_cons, redirTrees, dif_pos redir.2, ih]
      rfl

theorem nodeTrees_append
    {nodes : List Node}
    {trees : List Expr}
    (hNodes : nodeTrees nodes = some trees)
    {node : Node}
    {tree : Expr}
    (hNode : node.tree = some tree) :
    nodeTrees (nodes ++ [node]) = some (trees ++ [tree]) := by
  induction nodes generalizing trees with
  | nil =>
      rw [nodeTrees] at hNodes
      cases hNodes
      rw [List.nil_append, nodeTrees, hNode]
      rfl
  | cons first nodes ih =>
      rw [nodeTrees] at hNodes
      rcases Option.bind_eq_some_iff.mp hNodes
        with ⟨e, hFirst, hMap⟩
      rcases Option.map_eq_some_iff.mp hMap
        with ⟨more, hMore, rfl⟩
      rw [List.cons_append, nodeTrees, hFirst, Option.bind_some,
        ih hMore]
      rfl

theorem pipelineTree_append
    {trees : List Expr}
    {left : Expr}
    (hTrees : pipelineTree trees = some left)
    (tree : Expr) :
    pipelineTree (trees ++ [tree]) =
      some (.binary left BinaryOp.pipe tree) := by
  rcases trees with _ | ⟨first, _ | ⟨second, more⟩⟩
  · cases hTrees
  · cases hTrees
  · unfold pipelineTree at hTrees
    cases hTrees
    simp only [List.cons_append, pipelineTree, List.foldl_cons,
      List.foldl_append, List.foldl_nil]

/- An element is added to the pipeline on its left. -/
theorem tree_createPipeline
    {left right : Node}
    {l r : Expr}
    (hLeft : left.tree = some l)
    (hRight : right.tree = some r) :
    (createPipeline left right).tree =
      some (.binary l BinaryOp.pipe r) := by
  have hPair :
      (Node.pipeline [left, right]).tree =
        some (.binary l BinaryOp.pipe r) := by
    simp only [Node.tree, nodeTrees, hLeft, hRight,
      Option.bind_some, Option.map_some]
    rfl
  unfold createPipeline
  split
  · rename_i nodes
    rw [Node.tree] at hLeft
    rcases Option.bind_eq_some_iff.mp hLeft
      with ⟨trees, hNodes, hTrees⟩
    rw [Node.tree, nodeTrees_append hNodes hRight,
      Option.bind_some, pipelineTree_append hTrees]
  · exact hPair

theorem assignOpOf_resolve
    {kind : TokenKind}
    (hAssign : isAssignOp kind = true)
    (hPlain : kind ≠ .ASSIGN) :
    assignOpOf (resolveAssignOp kind) = kind := by
  cases kind <;>
    first
      | rfl
      | exact absurd rfl hPlain
      | cases hAssign

theorem tree_createBinaryNode
    {left right : Node}
    {l r : Expr}
    (hLeft : left.tree = some l)
    (hRight : right.tree = some r)
    (op : BinaryOp) :
    (createBinaryNode left op.1 right).tree =
      some (.binary l op r) := by
  unfold createBinaryNode
  by_cases hPipe : op.1 = .PIPE
  · have hOp : op = BinaryOp.pipe := Subtype.ext hPipe
    rw [if_pos hPipe, tree_createPipeline hLeft hRight, hOp]
  rw [if_neg hPipe]
  have hTree := binaryTree_some op l r
  by_cases hAssign : isAssignOp op.1 = true
  · rw [if_pos hAssign]
    unfold createAssignNode
    by_cases hPlain : op.1 = .ASSIGN
    · rw [if_pos hPlain, Node.tree, hLeft, hRight, ← hPlain,
        hTree]
    · rw [if_neg hPlain, Node.tree, hLeft, hRight,
        assignOpOf_resolve hAssign hPlain, hTree]
  · rw [if_neg hAssign, Node.tree, hLeft, hRight, hTree]

/- Nothing of a tree is lost in its node. -/
theorem tree_toNode (e : Expr) : e.toNode.tree = some e := by
  induction e with
  | number value =>
      rw [Expr.toNode, Node.tree, dif_pos value.isLt]
  | var name => rw [Expr.toNode, Node.tree]
  | unary op expr ih =>
      rw [Expr.toNode, Node.tree, ih]
      unfold unaryTree
      rw [dif_pos op.2]
      rfl
  | binary left op right ihLeft ihRight =>
      rw [Expr.toNode]
      exact tree_createBinaryNode ihLeft ihRight op
  | typeOp expr type isCast ih =>
      rw [Expr.toNode, Node.tree, ih]
      unfold typeOpTree
      rw [dif_pos type.2]
      rfl
  | redirected expr redir redirs ih =>
      have hRedirs := redirTrees_map (redir :: redirs)
      rw [List.map_cons] at hRedirs
      rw [Expr.toNode, Node.tree, ih, hRedirs]
      rfl
  | ternary cond thenExpr elseExpr ihCond ihThen ihElse =>
      rw [Expr.toNode, Node.tree, ihCond, ihThen, ihElse]
      rfl
  | throwExpr expr ih
  | coproc expr ih
  | background expr disown ih
  | prefixAssign env envs expr ih =>
      rw [Expr.toNode, Node.tree, ih]
      rfl

----
-- Trees and Their Texts
----

theorem Rendering.operand_level_le
    {r : Rendering}
    (hLevel : r.level ≤ UNARY_PRECE)
    (parens : Parens)
    (level : Nat)
    (next : Option Word) :
    (r.operand parens level next).level ≤ UNARY_PRECE := by
  unfold operand
  split
  · exact Nat.le_refl _
  · exact hLevel

theorem prece_le_of_isBinary
    (op : BinaryOp) :
    getPrecedence op.1 ≤ UNARY_PRECE ∧
      op.1.leftPrece ≤ UNARY_PRECE ∧
        op.1.rightPrece ≤ UNARY_PRECE := by
  rcases op with ⟨kind, hBinary⟩
  cases kind <;>
    exact
      ⟨Nat.le_of_ble_eq_true rfl, Nat.le_of_ble_eq_true rfl,
        Nat.le_of_ble_eq_true rfl⟩

theorem render_level_le
    (e : Expr)
    (parens : Parens) :
    (e.render parens).level ≤ UNARY_PRECE := by
  cases e with
  | binary left op right => exact (prece_le_of_isBinary op).1
  | _ => exact Nat.le_of_ble_eq_true rfl

/- By induction on the tree; every operand is on the level that
   it is read from. -/
theorem parses_render
    {parens : Parens}
    (hParens : parens ≠ .byPrecedence)
    (e : Expr) :
    Parses (e.render parens) e.toNode := by
  induction e with
  | number value => exact Parses.number value
  | var name => exact Parses.var name
  | unary op expr ih =>
      rcases ih.operand hParens (Nat.le_refl UNARY_PRECE) none
        with ⟨hParses, hLevel, _⟩
      exact
        hParses.unaryOp op hLevel
          (Rendering.operand_level_le
            (render_level_le expr parens) _ _ _)
  | binary left op right ihLeft ihRight =>
      rcases prece_le_of_isBinary op with ⟨_, hLeft, hRight⟩
      rcases ihLeft.operand hParens hLeft (some op.1.word)
        with ⟨hParses, hLevel, hAdmits⟩
      rcases ihRight.operand hParens hRight none
        with ⟨hParses', hLevel', _⟩
      exact
        hParses.binary hParses' op hLevel (hAdmits _ rfl) hLevel'
  | typeOp expr type isCast ih =>
      rcases ih.operand hParens
          (Nat.le_succ (TokenKind.leftPrece .AS))
          (some (Rendering.typeOpWord isCast))
        with ⟨hParses, hLevel, hAdmits⟩
      exact hParses.typeOp type isCast hLevel (hAdmits _ rfl)
  | redirected expr redir redirs ih =>
      rcases ih.operand hParens
          (Nat.le_add_right (TokenKind.leftPrece .WITH) 9)
          (some (.symbol .kwWith))
        with ⟨hParses, hLevel, hAdmits⟩
      exact
        hParses.redirected redir redirs hLevel (hAdmits _ rfl)
  | ternary cond thenExpr elseExpr ihCond ihThen ihElse =>
      rcases ihCond.operand hParens
          (Nat.le_add_right (getPrecedence .TERNARY + 1) 13)
          (some (.symbol .question))
        with ⟨hCond, hLevel, hAdmits⟩
      rcases ihThen.operand hParens
          (Nat.le_add_right (getPrecedence .TERNARY) 14)
          (some (.symbol .colon))
        with ⟨hThen, hThenLevel, hColon⟩
      rcases ihElse.operand hParens
          (Nat.le_add_right (getPrecedence .TERNARY) 14) none
        with ⟨hElse, hElseLevel, _⟩
      exact
        hCond.ternary hThen hElse hLevel (hAdmits _ rfl)
          hThenLevel (hColon _ rfl) hElseLevel
  | throwExpr expr ih =>
      rcases ih.operand hParens
          (Nat.le_add_right (getPrecedence .THROW) 15) none
        with ⟨hParses, hLevel, _⟩
      exact hParses.throwExpr hLevel
  | coproc expr ih =>
      rcases ih.operand hParens
          (Nat.le_add_right (getPrecedence .COPROC) 15) none
        with ⟨hParses, hLevel, _⟩
      exact hParses.coproc hLevel
  | background expr disown ih =>
      rcases ih.operand hParens
          (Nat.le_add_right (TokenKind.leftPrece .BACKGROUND) 16)
          (some (Rendering.backgroundWord disown))
        with ⟨hParses, hLevel, hAdmits⟩
      exact hParses.background disown hLevel (hAdmits _ rfl)
  | prefixAssign env envs expr ih =>
      rcases ih.operand hParens
          (Nat.le_add_right (getPrecedence .WITH) 9) none
        with ⟨hParses, hLevel, _⟩
      exact hParses.prefixAssign hLevel env envs

/- A whole text. -/
theorem Parses.parse
    {r : Rendering}
    {node : Node}
    (hParses : Parses r node)
    {calls : Nat}
    (hCalls : r.depth ≤ calls) :
    Parser.parse calls r.words = some node := by
  have hBase : getPrecedence .ASSIGN ≤ r.level :=
    hParses.level_pos
  have hRead :=
    hParses.reads hBase hCalls (Follows.nil r.edge _) []
  rw [List.append_nil] at hRead
  unfold Parser.parse
  rw [hRead]
  rfl

/- The parse of the text is the tree, and the text of that
   parse with all parentheses has the same parse. -/
theorem parse_render
    (e : Expr)
    (calls : Nat)
    (hDemanded : (e.render .demanded).depth ≤ calls)
    (hEverywhere : (e.render .everywhere).depth ≤ calls) :
    ∃ node,
      parse calls (e.render .demanded).words = some node ∧
        node = e.toNode ∧
        node.tree = some e ∧
        node.tree.bind
            (fun tree =>
              parse calls (tree.render .everywhere).words) =
          some node := by
  have hFirst :=
    (parses_render (fun h => by cases h) e).parse hDemanded
  have hSecond :=
    (parses_render (fun h => by cases h) e).parse hEverywhere
  have hTree := tree_toNode e
  refine ⟨e.toNode, hFirst, rfl, hTree, ?_⟩
  rw [hTree]
  exact hSecond

/- `! ( 1 & ) | $x ?? 2` -/
theorem parse_render_sample :
    ∃ node,
      parse 20
          ((Expr.binary
            (.unary ⟨.NOT, rfl⟩ (.background (.number 1) false))
            BinaryOp.pipe
            (.binary (.var [120]) ⟨.NULL_COALE, rfl⟩
              (.number 2))).render .demanded).words =
        some node ∧
      node.tree.isSome = true := by
  rcases parse_render
      (.binary
        (.unary ⟨.NOT, rfl⟩ (.background (.number 1) false))
        BinaryOp.pipe
        (.binary (.var [120]) ⟨.NULL_COALE, rfl⟩ (.number 2)))
      20 (by decide) (by decide)
    with ⟨node, hParse, _, hTree, _⟩
  refine ⟨node, hParse, ?_⟩
  rw [hTree]
  rfl

----
-- Texts Without Some Parentheses
----

/- Signs nested as deep as the calls may be. -/
theorem parse_signs
    (calls : Nat)
    {signs : Nat}
    (hSigns : calls ≤ signs)
    (stack : List LexerCond)
    (words : List Word) :
    parse_unaryExpression calls
        ⟨.STMT, stack,
          List.replicate signs (.symbol .minus) ++ words⟩ =
      none := by
  induction calls generalizing signs with
  | zero => rw [parse_unaryExpression]
  | succ calls ih =>
      obtain ⟨signs, rfl⟩ : ∃ n, signs = n + 1 :=
        ⟨signs - 1, by omega⟩
      have hMore := ih (Nat.le_of_succ_le_succ hSigns)
      rw [List.replicate_succ, List.cons_append,
        parse_unaryExpression]
      have hOp :
          parse_unaryOp (parse_unaryExpression calls)
              ⟨.STMT, stack,
                .symbol .minus ::
                  (List.replicate signs (.symbol .minus) ++
                    words)⟩ =
            none := by
        unfold parse_unaryOp
        rw [show
            Stream.consume
                ⟨.STMT, stack,
                  .symbol .minus ::
                    (List.replicate signs (.symbol .minus) ++
                      words)⟩ =
              ⟨.STMT, stack,
                List.replicate signs (.symbol .minus) ++ words⟩
            from rfl,
          hMore]
        rfl
      exact hOp

def signed (signs : Nat) : Expr :=
  Nat.rec (.number 0) (fun _ e => .unary ⟨.MINUS, rfl⟩ e) signs

theorem render_signed
    (signs : Nat) :
    ((signed signs).render .byPrecedence).words =
        List.replicate signs (.symbol .minus) ++ [.number 0] ∧
      ((signed signs).render .byPrecedence).level =
        UNARY_PRECE := by
  induction signs with
  | zero => exact ⟨rfl, rfl⟩
  | succ signs ih =>
      have hOperand :
          ((signed signs).render .byPrecedence).operand
              .byPrecedence UNARY_PRECE none =
            (signed signs).render .byPrecedence := by
        unfold Rendering.operand Rendering.needsGroup
        rw [ih.2]
        rfl
      have hStep :
          (signed (signs + 1)).render .byPrecedence =
            .unary ⟨.MINUS, rfl⟩
              (((signed signs).render .byPrecedence).operand
                .byPrecedence UNARY_PRECE none) := rfl
      rw [hStep, hOperand]
      refine ⟨?_, rfl⟩
      rw [List.replicate_succ, List.cons_append, ← ih.1]
      rfl

/- `GUARD_DEEP_NESTING` -/
abbrev MAX_NESTING_DEPTH : Nat := 5000

/- `1 & = 2`, `1 as T < 2`, `1 with > f ? 2 : 3` and 5000
   signs. -/
theorem byPrecedence_not_parsed :
    (∀ calls,
      parse calls
          ((Expr.binary (.background (.number 1) false)
            ⟨.ASSIGN, rfl⟩ (.number 2)).render
              .byPrecedence).words =
        none) ∧
    (∀ calls,
      parse calls
          ((Expr.binary
            (.typeOp (.number 1) ⟨.base [84], rfl⟩ true)
            ⟨.LT, rfl⟩ (.number 2)).render .byPrecedence).words =
        none) ∧
    (∀ calls,
      parse calls
          ((Expr.ternary
            (.redirected (.number 1)
              ⟨⟨.REDIR_OUT_2_FILE, some [102]⟩, rfl⟩ [])
            (.number 2) (.number 3)).render .byPrecedence).words =
        none) ∧
    parse MAX_NESTING_DEPTH
        ((signed MAX_NESTING_DEPTH).render .byPrecedence).words =
      none := by
  refine ⟨?_, ?_, ?_, ?_⟩
  · intro calls
    rcases calls with _ | _ | _ | _ | calls <;> rfl
  · intro calls
    rcases calls with _ | _ | _ | _ | calls <;> rfl
  · intro calls
    rcases calls with _ | _ | _ | _ | _ | calls <;> rfl
  · have hNone :=
      parse_signs 4999 (Nat.le_succ 4999) []
        [.number 0]
    rw [(render_signed MAX_NESTING_DEPTH).1]
    unfold parse
    rw [show MAX_NESTING_DEPTH = 4999 + 1 from rfl,
      parse_expression, hNone]
    rfl

end Parser

end Ydsh
