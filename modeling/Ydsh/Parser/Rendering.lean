import Ydsh.Parser.Expression

/-
  Expression trees and their texts.

  Parentheses are put where an operand binds too weakly.  The
  lexer asks for some more: the words after a type, after
  redirections and after `&` are read in another mode.

  Main declarations:
    * `Expr`
    * `Expr.render`
    * `Expr.toNode`
-/

----
-- Operators and Their Words
----

namespace Ydsh

namespace Parser

namespace TokenKind

/- The operators of the default case of the loop. -/
def isBinary (kind : TokenKind) : Bool :=
  (getOpInfo kind).isInfix &&
    !(List.contains
        [AS, IS, WITH, TERNARY, BACKGROUND, DISOWN_BG] kind)

def isUnary (kind : TokenKind) : Bool :=
  List.contains [PLUS, MINUS, NOT] kind

/- The word of an operator. -/
def symbol : TokenKind → Symbol
  | PLUS => .plus
  | MINUS => .minus
  | NOT => .bang
  | ADD => .plus
  | SUB => .minus
  | MUL => .star
  | DIV => .slash
  | MOD => .percent
  | LT => .lt
  | GT => .gt
  | LE => .le
  | GE => .ge
  | EQ => .eqEq
  | NE => .bangEq
  | AND => .kwAnd
  | OR => .kwOr
  | XOR => .kwXor
  | COND_AND => .ampAmp
  | COND_OR => .barBar
  | MATCH => .eqTilde
  | UNMATCH => .bangTilde
  | STR_CHECK => .colonMinus
  | NULL_COALE => .questionQuestion
  | PIPE => .bar
  | ASSIGN => .eq
  | ADD_ASSIGN => .plusEq
  | SUB_ASSIGN => .minusEq
  | MUL_ASSIGN => .starEq
  | DIV_ASSIGN => .slashEq
  | MOD_ASSIGN => .percentEq
  | STR_ASSIGN => .colonEq
  | NULL_ASSIGN => .questionQuestionEq
  | REDIR_IN_2_FILE => .lt
  | REDIR_OUT_2_FILE => .gt
  | REDIR_OUT_2_FILE_APPEND => .gtGt
  | REDIR_ERR_2_FILE => .twoGt
  | REDIR_ERR_2_FILE_APPEND => .twoGtGt
  | REDIR_MERGE_ERR_2_OUT_2_FILE => .ampGt
  | REDIR_MERGE_ERR_2_OUT_2_FILE_APPEND => .ampGtGt
  | REDIR_MERGE_ERR_2_OUT => .twoGtAmpOne
  | REDIR_MERGE_OUT_2_ERR => .oneGtAmpTwo
  | REDIR_HERE_STR => .ltLtLt
  | _ => .comma

def word (kind : TokenKind) : Word :=
  .symbol kind.symbol

/- The level that the left operand is on. -/
def leftPrece (kind : TokenKind) : Nat :=
  (getOpInfo kind).prece +
    (if (getOpInfo kind).isRightAssoc then 1 else 0)

/- The base precedence of the right operand. -/
def rightPrece (kind : TokenKind) : Nat :=
  (getOpInfo kind).prece +
    (if (getOpInfo kind).isRightAssoc then 0 else 1)

end TokenKind

/- A redirection has a target where its operator takes one. -/
def RedirNode.proper (redir : RedirNode) : Bool :=
  (isRedirFile redir.op && redir.target.isSome) ||
    (isRedirNoFile redir.op && redir.target.isNone)

abbrev BinaryOp := { kind : TokenKind // kind.isBinary = true }

abbrev UnaryOp := { kind : TokenKind // kind.isUnary = true }

abbrev Redir := { redir : RedirNode // redir.proper = true }

def Redir.words (redir : Redir) : List Word :=
  redir.1.op.word :: redir.1.target.toList.map .file

def Redir.depth (redir : Redir) : Nat :=
  if redir.1.target.isSome then 5 else 2

def BinaryOp.pipe : BinaryOp :=
  ⟨.PIPE, rfl⟩

----
-- Types
----

def TypeNode.isBase : TypeNode → Bool
  | .base _ => true
  | _ => false

mutual

/- A reified type has a type argument at least. -/
def TypeNode.proper : TypeNode → Bool
  | .base _ => true
  | .reified _ types => !types.isEmpty && properTypes types
  | .option type => type.proper

def properTypes : List TypeNode → Bool
  | [] => true
  | type :: types => type.proper && properTypes types

end

mutual

def TypeNode.words : TypeNode → List Word
  | .base name => [.name name]
  | .reified name types =>
      .name name :: .symbol .lt ::
        (typesWords types ++ [.symbol .gt])
  | .option type => type.words ++ [.symbol .bang]

def typesWords : List TypeNode → List Word
  | [] => []
  | [type] => type.words
  | type :: types =>
      type.words ++ .symbol .comma :: typesWords types

end

mutual

/- How many calls are nested in the one that reads the type. -/
def TypeNode.depth : TypeNode → Nat
  | .base _ => 2
  | .reified _ types => typesDepth types + 2
  | .option type => type.depth

def typesDepth : List TypeNode → Nat
  | [] => 0
  | type :: types => max type.depth (typesDepth types)

end

abbrev TypeTree := { type : TypeNode // type.proper = true }

inductive Expr where
  | number (value : Fin INT64_RANGE)
  | var (name : Name)
  | unary (op : UnaryOp) (expr : Expr)
  | binary (left : Expr) (op : BinaryOp) (right : Expr)
  | typeOp (expr : Expr) (type : TypeTree) (isCast : Bool)
  | redirected (expr : Expr) (redir : Redir) (redirs : List Redir)
  | ternary (cond thenExpr elseExpr : Expr)
  | throwExpr (expr : Expr)
  | coproc (expr : Expr)
  | background (expr : Expr) (disown : Bool)
  | prefixAssign
      (env : Name × Name)
      (envs : List (Name × Name))
      (expr : Expr)

/- The node of a tree, with the pipelines flattened. -/
def Expr.toNode : Expr → Node
  | .number value => .number value
  | .var name => .var name
  | .unary op expr => .unaryOp op.1 expr.toNode
  | .binary left op right =>
      createBinaryNode left.toNode op.1 right.toNode
  | .typeOp expr type isCast =>
      .typeOp expr.toNode type.1 isCast
  | .redirected expr redir redirs =>
      .redirected expr.toNode
        (redir.1 :: redirs.map Subtype.val)
  | .ternary cond thenExpr elseExpr =>
      .ternary cond.toNode thenExpr.toNode elseExpr.toNode
  | .throwExpr expr => .throwNode expr.toNode
  | .coproc expr => .coproc expr.toNode
  | .background expr disown => .background expr.toNode disown
  | .prefixAssign env envs expr =>
      .prefixAssign (env :: envs) expr.toNode

/- How the text of an expression ends. -/
inductive Edge where
  | plain
  | typed (isBase : Bool)
  | redirected
  | closed
  deriving DecidableEq, Repr

namespace Edge

/- The mode that the next word is read in. -/
def mode : Edge → LexerCond
  | plain => .EXPR
  | typed _ => .EXPR
  | redirected => .CMD
  | closed => .STMT

/- The type takes the next word. -/
def takes : Edge → TokenKind → Bool
  | typed isBase, kind =>
      kind == .TYPE_OPT || (isBase && kind == .TYPE_OPEN)
  | _, _ => false

/- The next word is the operator that it is after an operand. -/
def admits (edge : Edge) (w : Word) : Bool :=
  w.kind edge.mode == w.kind .EXPR &&
    !edge.takes (w.kind .TYPE)

end Edge

----
-- Texts
----

/- Where parentheses are put. -/
inductive Parens where
  | byPrecedence
  | demanded
  | everywhere
  deriving DecidableEq, Repr

/- The level of numbers, variables, groups and unary
   operators. -/
abbrev UNARY_PRECE : Nat := 18

structure Rendering where
  words : List Word
  level : Nat
  edge : Edge
  depth : Nat

namespace Rendering

def grouped (r : Rendering) : Rendering where
  words := .symbol .lparen :: (r.words ++ [.symbol .rparen])
  level := UNARY_PRECE
  edge := .plain
  depth := r.depth + 4

def needsGroup
    (r : Rendering)
    (level : Nat)
    (next : Option Word) : Parens → Bool
  | .byPrecedence => r.level < level
  | .demanded => r.level < level || !next.all r.edge.admits
  | .everywhere => true

/- An operand on a level, in front of a word. -/
def operand
    (parens : Parens)
    (level : Nat)
    (next : Option Word)
    (r : Rendering) : Rendering :=
  if r.needsGroup level next parens then r.grouped else r

def atom (w : Word) : Rendering where
  words := [w]
  level := UNARY_PRECE
  edge := .plain
  depth := 4

def unary (op : UnaryOp) (r : Rendering) : Rendering where
  words := op.1.word :: r.words
  level := UNARY_PRECE
  edge := .plain
  depth := r.depth + 1

def binary
    (left : Rendering)
    (op : BinaryOp)
    (right : Rendering) : Rendering where
  words := left.words ++ op.1.word :: right.words
  level := getPrecedence op.1
  edge := right.edge
  depth := max left.depth (right.depth + 1)

def typeOpWord (isCast : Bool) : Word :=
  .symbol (if isCast then .kwAs else .kwIs)

def typeOp
    (left : Rendering)
    (type : TypeTree)
    (isCast : Bool) : Rendering where
  words := left.words ++ typeOpWord isCast :: type.1.words
  level := getPrecedence .AS
  edge := .typed type.1.isBase
  depth := max left.depth (type.1.depth + 1)

def redirected
    (left : Rendering)
    (redirs : List Redir) : Rendering where
  words :=
    left.words ++ .symbol .kwWith :: redirs.flatMap Redir.words
  level := getPrecedence .WITH
  edge := .redirected
  depth := (redirs.map Redir.depth).foldr max left.depth

def ternary (cond thenExpr elseExpr : Rendering) : Rendering where
  words :=
    cond.words ++ .symbol .question ::
      (thenExpr.words ++ .symbol .colon :: elseExpr.words)
  level := getPrecedence .TERNARY
  edge := elseExpr.edge
  depth :=
    max cond.depth (max thenExpr.depth elseExpr.depth + 1)

/- `throw` and `coproc` -/
def headed (s : Symbol) (r : Rendering) : Rendering where
  words := .symbol s :: r.words
  level := getPrecedence .THROW
  edge := r.edge
  depth := r.depth + 2

def backgroundWord (disown : Bool) : Word :=
  .symbol (if disown then .ampBang else .amp)

def background
    (left : Rendering)
    (disown : Bool) : Rendering where
  words := left.words ++ [backgroundWord disown]
  level := getPrecedence .BACKGROUND
  edge := .closed
  depth := left.depth

def prefixAssign
    (envs : List (Name × Name))
    (r : Rendering) : Rendering where
  words := envs.map (fun env => .env env.1 env.2) ++ r.words
  level := getPrecedence .ENV_ASSIGN
  edge := r.edge
  depth := max r.depth CMD_ARG_CALLS + 5

end Rendering

/- Every operand is on the level that the parser reads it
   from. -/
def Expr.render
    (parens : Parens) : Expr → Rendering
  | .number value => .atom (.number value)
  | .var name => .atom (.applied name)
  | .unary op expr =>
      .unary op
        ((expr.render parens).operand parens UNARY_PRECE none)
  | .binary left op right =>
      .binary
        ((left.render parens).operand parens op.1.leftPrece
          (some op.1.word))
        op
        ((right.render parens).operand parens op.1.rightPrece
          none)
  | .typeOp expr type isCast =>
      .typeOp
        ((expr.render parens).operand parens
          (TokenKind.leftPrece .AS)
          (some (Rendering.typeOpWord isCast)))
        type isCast
  | .redirected expr redir redirs =>
      .redirected
        ((expr.render parens).operand parens
          (TokenKind.leftPrece .WITH)
          (some (.symbol .kwWith)))
        (redir :: redirs)
  | .ternary cond thenExpr elseExpr =>
      .ternary
        ((cond.render parens).operand parens
          (getPrecedence .TERNARY + 1)
          (some (.symbol .question)))
        ((thenExpr.render parens).operand parens
          (getPrecedence .TERNARY)
          (some (.symbol .colon)))
        ((elseExpr.render parens).operand parens
          (getPrecedence .TERNARY) none)
  | .throwExpr expr =>
      .headed .kwThrow
        ((expr.render parens).operand parens
          (getPrecedence .THROW) none)
  | .coproc expr =>
      .headed .kwCoproc
        ((expr.render parens).operand parens
          (getPrecedence .COPROC) none)
  | .background expr disown =>
      .background
        ((expr.render parens).operand parens
          (TokenKind.leftPrece .BACKGROUND)
          (some (Rendering.backgroundWord disown)))
        disown
  | .prefixAssign env envs expr =>
      .prefixAssign (env :: envs)
        ((expr.render parens).operand parens
          (getPrecedence .WITH) none)

/- The equations that proofs unfold. -/
attribute [local simp] Expr.toNode

end Parser

end Ydsh
