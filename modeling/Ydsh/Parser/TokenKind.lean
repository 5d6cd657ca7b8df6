import Mathlib.Data.List.Basic

/-
  Tokens of expressions and the table of operators.

  A word is the text of one token.  What it is a token of depends
  on the mode of the lexer, and the token sets the next mode.

  Main declarations:
    * `TokenKind`
    * `getOpInfo`
    * `Word.kind`
    * `Stream`
-/

----
-- Tokens
----

namespace Ydsh

namespace Parser

inductive TokenKind where
  | EOS
  | INVALID
  -- prefixes and operands
  | THROW
  | COPROC
  | PLUS
  | MINUS
  | NOT
  | INT_LITERAL
  | APPLIED_NAME
  | COMMAND
  | ENV_ASSIGN
  | LP
  | RP
  | COLON
  | COMMA
  -- operators
  | ADD
  | SUB
  | MUL
  | DIV
  | MOD
  | LT
  | GT
  | LE
  | GE
  | EQ
  | NE
  | AND
  | OR
  | XOR
  | COND_AND
  | COND_OR
  | MATCH
  | UNMATCH
  | STR_CHECK
  | TERNARY
  | NULL_COALE
  | PIPE
  | UNWRAP
  | ASSIGN
  | ADD_ASSIGN
  | SUB_ASSIGN
  | MUL_ASSIGN
  | DIV_ASSIGN
  | MOD_ASSIGN
  | STR_ASSIGN
  | NULL_ASSIGN
  | AS
  | IS
  | WITH
  | BACKGROUND
  | DISOWN_BG
  -- command arguments
  | CMD_ARG_PART
  | GLOB_ANY
  | GLOB_ZERO_OR_MORE
  | PATH_SEP
  | REDIR_IN_2_FILE
  | REDIR_OUT_2_FILE
  | REDIR_OUT_2_FILE_APPEND
  | REDIR_ERR_2_FILE
  | REDIR_ERR_2_FILE_APPEND
  | REDIR_MERGE_ERR_2_OUT_2_FILE
  | REDIR_MERGE_ERR_2_OUT_2_FILE_APPEND
  | REDIR_MERGE_ERR_2_OUT
  | REDIR_MERGE_OUT_2_ERR
  | REDIR_HERE_STR
  -- types
  | IDENTIFIER
  | TYPE_OPEN
  | TYPE_CLOSE
  | TYPE_SEP
  | TYPE_OPT
  | TYPE_MSEP
  | PTYPE_OPEN
  | PTYPE_CLOSE
  deriving DecidableEq, Repr

----
-- Operators
----

structure OperatorInfo where
  prece : Nat := 0
  isInfix : Bool := false
  isRightAssoc : Bool := false

/- `INFIX` -/
def infixAt (prece : Nat) : OperatorInfo :=
  { prece := prece
    isInfix := true }

/- `INFIX | RASSOC` -/
def rightInfixAt (prece : Nat) : OperatorInfo :=
  { prece := prece
    isInfix := true
    isRightAssoc := true }

/- `PREFIX | RASSOC` -/
def rightPrefixAt (prece : Nat) : OperatorInfo :=
  { prece := prece
    isRightAssoc := true }

def getOpInfo : TokenKind → OperatorInfo
  | .IS => infixAt 17
  | .AS => infixAt 17
  | .MUL => infixAt 16
  | .DIV => infixAt 16
  | .MOD => infixAt 16
  | .ADD => infixAt 15
  | .SUB => infixAt 15
  | .AND => infixAt 14
  | .XOR => infixAt 13
  | .OR => infixAt 12
  | .NULL_COALE => rightInfixAt 11
  | .LT => infixAt 10
  | .GT => infixAt 10
  | .LE => infixAt 10
  | .GE => infixAt 10
  | .EQ => infixAt 10
  | .NE => infixAt 10
  | .MATCH => infixAt 10
  | .UNMATCH => infixAt 10
  | .STR_CHECK => infixAt 10
  | .WITH => infixAt 9
  | .ENV_ASSIGN => { prece := 8 }
  | .PIPE => infixAt 7
  | .COND_AND => infixAt 6
  | .COND_OR => infixAt 5
  | .TERNARY => infixAt 4
  | .THROW => rightPrefixAt 3
  | .COPROC => rightPrefixAt 3
  | .BACKGROUND => infixAt 2
  | .DISOWN_BG => infixAt 2
  | .ASSIGN => rightInfixAt 1
  | .ADD_ASSIGN => rightInfixAt 1
  | .SUB_ASSIGN => rightInfixAt 1
  | .MUL_ASSIGN => rightInfixAt 1
  | .DIV_ASSIGN => rightInfixAt 1
  | .MOD_ASSIGN => rightInfixAt 1
  | .STR_ASSIGN => rightInfixAt 1
  | .NULL_ASSIGN => rightInfixAt 1
  | _ => {}

def getPrecedence (kind : TokenKind) : Nat :=
  (getOpInfo kind).prece

/- `EACH_ASSIGN_OPERATOR` -/
def isAssignOp : TokenKind → Bool
  | .ASSIGN => true
  | .ADD_ASSIGN => true
  | .SUB_ASSIGN => true
  | .MUL_ASSIGN => true
  | .DIV_ASSIGN => true
  | .MOD_ASSIGN => true
  | .STR_ASSIGN => true
  | .NULL_ASSIGN => true
  | _ => false

/- Any other kind is fatal. -/
def resolveAssignOp : TokenKind → TokenKind
  | .ADD_ASSIGN => .ADD
  | .SUB_ASSIGN => .SUB
  | .MUL_ASSIGN => .MUL
  | .DIV_ASSIGN => .DIV
  | .MOD_ASSIGN => .MOD
  | .STR_ASSIGN => .STR_CHECK
  | .NULL_ASSIGN => .NULL_COALE
  | _ => .INVALID

/- Redirections with a target. -/
def isRedirFile : TokenKind → Bool
  | .REDIR_IN_2_FILE => true
  | .REDIR_OUT_2_FILE => true
  | .REDIR_OUT_2_FILE_APPEND => true
  | .REDIR_ERR_2_FILE => true
  | .REDIR_ERR_2_FILE_APPEND => true
  | .REDIR_MERGE_ERR_2_OUT_2_FILE => true
  | .REDIR_MERGE_ERR_2_OUT_2_FILE_APPEND => true
  | .REDIR_HERE_STR => true
  | _ => false

def isRedirNoFile : TokenKind → Bool
  | .REDIR_MERGE_ERR_2_OUT => true
  | .REDIR_MERGE_OUT_2_ERR => true
  | _ => false

def isRedir (kind : TokenKind) : Bool :=
  isRedirFile kind || isRedirNoFile kind

----
-- Words
----

/- A word with a fixed text. -/
inductive Symbol where
  | plus
  | minus
  | bang
  | star
  | slash
  | percent
  | lt
  | gt
  | le
  | ge
  | eqEq
  | bangEq
  | kwAnd
  | kwOr
  | kwXor
  | ampAmp
  | barBar
  | eqTilde
  | bangTilde
  | colonMinus
  | question
  | questionQuestion
  | bar
  | eq
  | plusEq
  | minusEq
  | starEq
  | slashEq
  | percentEq
  | colonEq
  | questionQuestionEq
  | kwAs
  | kwIs
  | kwWith
  | amp
  | ampBang
  | kwThrow
  | kwCoproc
  | lparen
  | rparen
  | colon
  | comma
  | gtGt
  | twoGt
  | twoGtGt
  | ampGt
  | ampGtGt
  | twoGtAmpOne
  | oneGtAmpTwo
  | ltLtLt
  deriving DecidableEq, Repr

/- The others are a number, `$name`, a name, a file name and an
   assignment in front of an expression. -/
inductive Word where
  | symbol (s : Symbol)
  | number (value : Nat)
  | applied (name : List UInt8)
  | name (name : List UInt8)
  | file (name : List UInt8)
  | env (name value : List UInt8)
  deriving DecidableEq, Repr

inductive LexerCond where
  | STMT
  | EXPR
  | CMD
  | TYPE
  deriving DecidableEq, Repr

namespace Symbol

/- `<STMT>`; other words are commands. -/
def stmtKind : Symbol → TokenKind
  | plus => .PLUS
  | plusEq => .PLUS
  | minus => .MINUS
  | minusEq => .MINUS
  | bang => .NOT
  | bangEq => .NOT
  | bangTilde => .NOT
  | kwThrow => .THROW
  | kwCoproc => .COPROC
  | lparen => .LP
  | rparen => .RP
  | twoGt => .INT_LITERAL
  | twoGtGt => .INT_LITERAL
  | twoGtAmpOne => .INT_LITERAL
  | oneGtAmpTwo => .INT_LITERAL
  | star => .COMMAND
  | slash => .COMMAND
  | percent => .COMMAND
  | kwAnd => .COMMAND
  | kwOr => .COMMAND
  | kwXor => .COMMAND
  | colonMinus => .COMMAND
  | question => .COMMAND
  | questionQuestion => .COMMAND
  | kwAs => .COMMAND
  | kwIs => .COMMAND
  | kwWith => .COMMAND
  | colon => .COMMAND
  | comma => .COMMAND
  | starEq => .ENV_ASSIGN
  | slashEq => .ENV_ASSIGN
  | percentEq => .ENV_ASSIGN
  | colonEq => .ENV_ASSIGN
  | questionQuestionEq => .ENV_ASSIGN
  | _ => .INVALID

/- `<EXPR>` -/
def exprKind : Symbol → TokenKind
  | plus => .ADD
  | minus => .SUB
  | bang => .UNWRAP
  | star => .MUL
  | slash => .DIV
  | percent => .MOD
  | lt => .LT
  | gt => .GT
  | le => .LE
  | ge => .GE
  | eqEq => .EQ
  | bangEq => .NE
  | kwAnd => .AND
  | kwOr => .OR
  | kwXor => .XOR
  | ampAmp => .COND_AND
  | barBar => .COND_OR
  | eqTilde => .MATCH
  | bangTilde => .UNMATCH
  | colonMinus => .STR_CHECK
  | question => .TERNARY
  | questionQuestion => .NULL_COALE
  | bar => .PIPE
  | eq => .ASSIGN
  | plusEq => .ADD_ASSIGN
  | minusEq => .SUB_ASSIGN
  | starEq => .MUL_ASSIGN
  | slashEq => .DIV_ASSIGN
  | percentEq => .MOD_ASSIGN
  | colonEq => .STR_ASSIGN
  | questionQuestionEq => .NULL_ASSIGN
  | kwAs => .AS
  | kwIs => .IS
  | kwWith => .WITH
  | amp => .BACKGROUND
  | ampBang => .DISOWN_BG
  | lparen => .LP
  | rparen => .RP
  | colon => .COLON
  | comma => .COMMA
  | gtGt => .GT
  | ampGt => .BACKGROUND
  | ampGtGt => .BACKGROUND
  | ltLtLt => .LT
  | _ => .INVALID

/- `<CMD>`; other words are arguments. -/
def cmdKind : Symbol → TokenKind
  | ampAmp => .COND_AND
  | barBar => .COND_OR
  | bar => .PIPE
  | amp => .BACKGROUND
  | ampBang => .DISOWN_BG
  | lparen => .LP
  | rparen => .RP
  | star => .GLOB_ZERO_OR_MORE
  | starEq => .GLOB_ZERO_OR_MORE
  | question => .GLOB_ANY
  | questionQuestion => .GLOB_ANY
  | questionQuestionEq => .GLOB_ANY
  | colon => .PATH_SEP
  | colonMinus => .PATH_SEP
  | colonEq => .PATH_SEP
  | lt => .REDIR_IN_2_FILE
  | le => .REDIR_IN_2_FILE
  | gt => .REDIR_OUT_2_FILE
  | ge => .REDIR_OUT_2_FILE
  | gtGt => .REDIR_OUT_2_FILE_APPEND
  | twoGt => .REDIR_ERR_2_FILE
  | twoGtGt => .REDIR_ERR_2_FILE_APPEND
  | ampGt => .REDIR_MERGE_ERR_2_OUT_2_FILE
  | ampGtGt => .REDIR_MERGE_ERR_2_OUT_2_FILE_APPEND
  | twoGtAmpOne => .REDIR_MERGE_ERR_2_OUT
  | oneGtAmpTwo => .REDIR_MERGE_OUT_2_ERR
  | ltLtLt => .REDIR_HERE_STR
  | _ => .CMD_ARG_PART

/- `<TYPE>`: `!=` and `!~` are no `!`. -/
def typeKind : Symbol → TokenKind
  | kwAnd => .IDENTIFIER
  | kwOr => .IDENTIFIER
  | kwXor => .IDENTIFIER
  | kwAs => .IDENTIFIER
  | kwIs => .IDENTIFIER
  | kwWith => .IDENTIFIER
  | kwThrow => .IDENTIFIER
  | kwCoproc => .IDENTIFIER
  | lt => .TYPE_OPEN
  | le => .TYPE_OPEN
  | ltLtLt => .TYPE_OPEN
  | gt => .TYPE_CLOSE
  | ge => .TYPE_CLOSE
  | gtGt => .TYPE_CLOSE
  | comma => .TYPE_SEP
  | bang => .TYPE_OPT
  | colon => .TYPE_MSEP
  | colonMinus => .TYPE_MSEP
  | colonEq => .TYPE_MSEP
  | lparen => .PTYPE_OPEN
  | rparen => .PTYPE_CLOSE
  | _ => .INVALID

def kind : LexerCond → Symbol → TokenKind
  | .STMT, s => s.stmtKind
  | .EXPR, s => s.exprKind
  | .CMD, s => s.cmdKind
  | .TYPE, s => s.typeKind

end Symbol

/- The token that a word begins with. -/
def Word.kind : LexerCond → Word → TokenKind
  | mode, .symbol s => s.kind mode
  | .STMT, .number _ => .INT_LITERAL
  | .CMD, .number _ => .CMD_ARG_PART
  | .STMT, .applied _ => .APPLIED_NAME
  | .CMD, .applied _ => .APPLIED_NAME
  | .STMT, .name _ => .COMMAND
  | .CMD, .name _ => .CMD_ARG_PART
  | .TYPE, .name _ => .IDENTIFIER
  | .STMT, .file _ => .COMMAND
  | .CMD, .file _ => .CMD_ARG_PART
  | .STMT, .env _ _ => .ENV_ASSIGN
  | .CMD, .env _ _ => .CMD_ARG_PART
  | _, _ => .INVALID

----
-- Streams
----

/- The mode of the lexer, the modes under it and the words to
   come. -/
structure Stream where
  mode : LexerCond
  stack : List LexerCond
  words : List Word

/- The mode that the lexer is in after a token. -/
def nextMode
    (mode : LexerCond) :
    TokenKind → LexerCond
  | .INT_LITERAL => .EXPR
  | .APPLIED_NAME => if mode = .STMT then .EXPR else mode
  | .COMMAND => .CMD
  | .ENV_ASSIGN => .CMD
  | .WITH => .CMD
  | .BACKGROUND => .STMT
  | .DISOWN_BG => .STMT
  | .AS => mode
  | .IS => mode
  | kind =>
      if (getOpInfo kind).isInfix then .STMT else mode

namespace Stream

def peek (s : Stream) : TokenKind :=
  s.words.head?.elim .EOS (Word.kind s.mode)

/- A group is read in a mode of its own. -/
def consume (s : Stream) : Stream :=
  match s.peek with
  | .LP => ⟨.STMT, .EXPR :: s.stack, s.words.tail⟩
  | .RP => ⟨s.stack.headD .STMT, s.stack.tail, s.words.tail⟩
  | kind => ⟨nextMode s.mode kind, s.stack, s.words.tail⟩

theorem peek_cons
    (mode : LexerCond)
    (stack : List LexerCond)
    (w : Word)
    (words : List Word) :
    peek ⟨mode, stack, w :: words⟩ = w.kind mode := rfl

theorem consume_cons
    {mode : LexerCond}
    (stack : List LexerCond)
    {w : Word}
    (words : List Word)
    (hLP : w.kind mode ≠ .LP)
    (hRP : w.kind mode ≠ .RP) :
    consume ⟨mode, stack, w :: words⟩ =
      ⟨nextMode mode (w.kind mode), stack, words⟩ := by
  unfold consume
  rw [peek_cons]
  split
  · rename_i hKind
    exact absurd hKind hLP
  · rename_i hKind
    exact absurd hKind hRP
  · rfl

end Stream

end Parser

end Ydsh
