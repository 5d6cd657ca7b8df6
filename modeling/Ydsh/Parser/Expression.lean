import Ydsh.Parser.TokenKind

/-
  The parser of expressions.

  Every function is given how many calls may still be nested in
  it, and ends with an error where none is left.  Words stand on
  one line with spaces between them.  Of the operands there are
  numbers, variables and groups of one expression.

  Main declarations:
    * `Node`
    * `parse_expression`
    * `parse`
-/

----
-- Nodes
----

namespace Ydsh

namespace Parser

abbrev Name := List UInt8

inductive TypeNode where
  | base (name : Name)
  | reified (name : Name) (types : List TypeNode)
  | option (type : TypeNode)

structure RedirNode where
  op : TokenKind
  target : Option Name
  deriving DecidableEq, Repr

inductive Node where
  | number (value : Nat)
  | var (name : Name)
  | unaryOp (op : TokenKind) (expr : Node)
  | binaryOp (left : Node) (op : TokenKind) (right : Node)
  | assign (left right : Node)
  | selfAssign (left : Node) (op : TokenKind) (right : Node)
  | typeOp (expr : Node) (type : TypeNode) (isCast : Bool)
  | redirected (expr : Node) (redirs : List RedirNode)
  | ternary (cond thenNode elseNode : Node)
  | throwNode (expr : Node)
  | coproc (expr : Node)
  | background (expr : Node) (disown : Bool)
  | pipeline (nodes : List Node)
  | prefixAssign (envs : List (Name × Name)) (expr : Node)
  | envDecl (envs : List (Name × Name))

def createAssignNode
    (left : Node)
    (op : TokenKind)
    (right : Node) : Node :=
  if op = .ASSIGN then
    .assign left right
  else
    .selfAssign left (resolveAssignOp op) right

/- A pipeline is extended at its end. -/
def createPipeline (left right : Node) : Node :=
  match left with
  | .pipeline nodes => .pipeline (nodes ++ [right])
  | _ => .pipeline [left, right]

def createBinaryNode
    (left : Node)
    (op : TokenKind)
    (right : Node) : Node :=
  if op = .PIPE then
    createPipeline left right
  else if isAssignOp op then
    createAssignNode left op right
  else
    .binaryOp left op right

----
-- Types
----

def typePeek (words : List Word) : TokenKind :=
  words.head?.elim .EOS (Word.kind .TYPE)

/- Types separated by commas. -/
def parse_types
    (typeName : List Word → Option (TypeNode × List Word)) :
    Nat → List Word → Option (List TypeNode × List Word)
  | 0, _ => none
  | rounds + 1, words =>
      (typeName words).bind
        (fun found =>
          if typePeek found.2 = .TYPE_SEP then
            (parse_types typeName rounds found.2.tail).map
              (fun more => (found.1 :: more.1, more.2))
          else
            some ([found.1], found.2))

/- Each `!` makes an optional type. -/
def parse_typeOpts
    (type : TypeNode) :
    List Word → TypeNode × List Word
  | [] => (type, [])
  | w :: words =>
      if w.kind .TYPE = .TYPE_OPT then
        parse_typeOpts (.option type) words
      else
        (type, w :: words)

mutual

/- The mode is `TYPE`, also for the word after the type. -/
def parse_typeName :
    Nat → List Word → Option (TypeNode × List Word)
  | 0, _ => none
  | calls + 1, words =>
      match words with
      | .name name :: rest =>
          (parse_basicOrReifiedType calls name rest).map
            (fun found => parse_typeOpts found.1 found.2)
      | _ => none

def parse_basicOrReifiedType :
    Nat → Name → List Word → Option (TypeNode × List Word)
  | 0, _, _ => none
  | calls + 1, name, words =>
      if typePeek words = .TYPE_OPEN then
        (parse_types (parse_typeName calls) words.length
            words.tail).bind
          (fun found =>
            if typePeek found.2 = .TYPE_CLOSE then
              some (.reified name found.1, found.2.tail)
            else
              none)
      else
        some (.base name, words)

end

def parse_cmdArgPart :
    Nat → Stream → Option (Name × Stream)
  | 0, _ => none
  | _ + 1, s =>
      match s.words with
      | .file name :: _ => some (name, s.consume)
      | _ => none

def parse_cmdArgSeg :
    Nat → Stream → Option (Name × Stream)
  | 0, _ => none
  | calls + 1, s =>
      if s.peek = .CMD_ARG_PART then
        parse_cmdArgPart calls s
      else
        none

/- After a space there are no more segments. -/
def parse_cmdArg :
    Nat → Stream → Option (Name × Stream)
  | 0, _ => none
  | calls + 1, s => parse_cmdArgSeg calls s

def parse_redirOption :
    Nat → Stream → Option (RedirNode × Stream)
  | 0, _ => none
  | calls + 1, s =>
      if isRedirFile s.peek then
        (parse_cmdArg calls s.consume).map
          (fun found => (⟨s.peek, some found.1⟩, found.2))
      else if isRedirNoFile s.peek then
        some (⟨s.peek, none⟩, s.consume)
      else
        none

def parse_redirs
    (calls : Nat) :
    Nat → Stream → Option (List RedirNode × Stream)
  | 0, _ => none
  | rounds + 1, s =>
      if isRedir s.peek then
        (parse_redirOption calls s).bind
          (fun found =>
            (parse_redirs calls rounds found.2).map
              (fun more => (found.1 :: more.1, more.2)))
      else if s.peek = .INVALID then
        none
      else
        some ([], s)

----
-- Operators
----

/- `expectAndChangeMode(COLON, yycSTMT)` -/
def expectColon (s : Stream) : Option Stream :=
  if s.peek = .COLON then
    some ⟨.STMT, s.stack, s.words.tail⟩
  else
    none

def parse_typeOp
    (calls : Nat)
    (node : Node)
    (s : Stream) : Option (Bool × Node × Stream) :=
  (parse_typeName calls s.consume.words).map
    (fun found =>
      (true, .typeOp node found.1 (s.peek == .AS),
        { s.consume with words := found.2 }))

def parse_with
    (calls : Nat)
    (node : Node)
    (s : Stream) : Option (Bool × Node × Stream) :=
  (parse_redirOption calls s.consume).bind
    (fun found =>
      (parse_redirs calls (s.words.length + 1) found.2).map
        (fun more =>
          (true, .redirected node (found.1 :: more.1), more.2)))

def parse_ternary
    (expression : Nat → Stream → Option (Node × Stream))
    (node : Node)
    (s : Stream) : Option (Bool × Node × Stream) :=
  (expression (getPrecedence .TERNARY) s.consume).bind
    (fun left =>
      (expectColon left.2).bind
        (fun s =>
          (expression (getPrecedence .TERNARY) s).map
            (fun right =>
              (true, .ternary node left.1 right.1, right.2))))

def parse_binary
    (expression : Nat → Stream → Option (Node × Stream))
    (node : Node)
    (s : Stream) : Option (Bool × Node × Stream) :=
  let info := getOpInfo s.peek
  let nextPrece :=
    info.prece + (if info.isRightAssoc then 0 else 1)
  (expression nextPrece s.consume).map
    (fun right =>
      (true, createBinaryNode node s.peek right.1, right.2))

/- One round of the loop, and whether it goes on. -/
def parse_operator
    (expression : Nat → Stream → Option (Node × Stream))
    (calls : Nat)
    (node : Node)
    (s : Stream) : Option (Bool × Node × Stream) :=
  match s.peek with
  | .AS => parse_typeOp calls node s
  | .IS => parse_typeOp calls node s
  | .WITH => parse_with calls node s
  | .TERNARY => parse_ternary expression node s
  | .BACKGROUND => some (false, .background node false, s.consume)
  | .DISOWN_BG => some (false, .background node true, s.consume)
  | _ => parse_binary expression node s

/- The token is no operator of this loop. -/
def stops
    (basePrecedence : Nat)
    (kind : TokenKind) : Bool :=
  !(getOpInfo kind).isInfix ||
    (getOpInfo kind).prece < basePrecedence

/- Each round takes a word at least. -/
def parse_operators
    (expression : Nat → Stream → Option (Node × Stream))
    (calls : Nat)
    (basePrecedence : Nat) :
    Nat → Node → Stream → Option (Node × Stream)
  | 0, _, _ => none
  | rounds + 1, node, s =>
      if stops basePrecedence s.peek then
        some (node, s)
      else
        (parse_operator expression calls node s).bind
          (fun next =>
            if next.1 then
              parse_operators expression calls basePrecedence
                rounds next.2.1 next.2.2
            else
              some next.2)

----
-- Expressions
----

/- `EACH_LA_expression` -/
def lookahead_expression : TokenKind → Bool
  | .NOT => true
  | .PLUS => true
  | .MINUS => true
  | .THROW => true
  | .COPROC => true
  | .COMMAND => true
  | .ENV_ASSIGN => true
  | .INT_LITERAL => true
  | .APPLIED_NAME => true
  | .LP => true
  | _ => false

/- The assignments up to the first other word. -/
def takeEnvs : List Word → List (Name × Name) × List Word
  | .env name value :: words =>
      ((name, value) :: (takeEnvs words).1, (takeEnvs words).2)
  | words => ([], words)

/- How many calls the value of an assignment takes. -/
abbrev CMD_ARG_CALLS : Nat := 3

abbrev INT64_RANGE : Nat := 0x8000000000000000

def parse_unaryOp
    (unaryExpression : Stream → Option (Node × Stream))
    (s : Stream) : Option (Node × Stream) :=
  (unaryExpression s.consume).map
    (fun found => (.unaryOp s.peek found.1, found.2))

mutual

def parse_expression :
    Nat → Nat → Stream → Option (Node × Stream)
  | 0, _, _ => none
  | calls + 1, basePrecedence, s =>
      (parse_unaryExpression calls s).bind
        (fun found =>
          parse_operators (parse_expression calls) calls
            basePrecedence (s.words.length + 1) found.1 found.2)

def parse_unaryExpression :
    Nat → Stream → Option (Node × Stream)
  | 0, _ => none
  | calls + 1, s =>
      match s.peek with
      | .PLUS => parse_unaryOp (parse_unaryExpression calls) s
      | .MINUS => parse_unaryOp (parse_unaryExpression calls) s
      | .NOT => parse_unaryOp (parse_unaryExpression calls) s
      | .THROW =>
          (parse_expression calls (getPrecedence .THROW)
              s.consume).map
            (fun found => (.throwNode found.1, found.2))
      | .COPROC =>
          (parse_expression calls (getPrecedence .COPROC)
              s.consume).map
            (fun found => (.coproc found.1, found.2))
      | _ => parse_suffixExpression calls s

/- Suffixes are left out. -/
def parse_suffixExpression :
    Nat → Stream → Option (Node × Stream)
  | 0, _ => none
  | calls + 1, s => parse_primaryExpression calls s

def parse_primaryExpression :
    Nat → Stream → Option (Node × Stream)
  | 0, _ => none
  | calls + 1, s =>
      match s.words with
      | .number value :: _ =>
          if s.mode = .STMT ∧ value < INT64_RANGE then
            some (.number value, s.consume)
          else
            none
      | .applied name :: _ =>
          if s.mode = .STMT then
            some (.var name, s.consume)
          else
            none
      | .env _ _ :: _ =>
          if s.mode = .STMT then
            parse_prefixAssign calls s
          else
            none
      | _ =>
          if s.peek = .LP then
            (parse_expression calls (getPrecedence .ASSIGN)
                s.consume).bind
              (fun found =>
                if found.2.peek = .RP then
                  some (found.1, found.2.consume)
                else
                  none)
          else
            none

def parse_prefixAssign :
    Nat → Stream → Option (Node × Stream)
  | 0, _ => none
  | calls + 1, s =>
      if calls < CMD_ARG_CALLS then
        none
      else
        let envs := takeEnvs s.words
        let s : Stream := ⟨.STMT, s.stack, envs.2⟩
        if lookahead_expression s.peek then
          (parse_expression calls (getPrecedence .WITH) s).map
            (fun found =>
              (.prefixAssign envs.1 found.1, found.2))
        else
          some (.envDecl envs.1, s)

end

/- One expression and nothing after it. -/
def parse
    (calls : Nat)
    (words : List Word) : Option Node :=
  (parse_expression calls (getPrecedence .ASSIGN)
      ⟨.STMT, [], words⟩).bind
    (fun found =>
      if found.2.words = [] then some found.1 else none)

/- The equations that proofs unfold. -/
attribute [local simp] parse_typeName parse_redirOption
  parse_redirs parse_with takeEnvs parse_unaryExpression
  parse_primaryExpression parse_prefixAssign

end Parser

end Ydsh
