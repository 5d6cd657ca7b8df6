import Ydsh.Type.TypePool

/-
  The parser of type names.

  A type name is read by a lexer mode of its own and by a
  recursive descent parser that limits how deep its calls are
  nested.  The tree is then turned into a type of the pool.

  Main declarations:
    * `lexType`
    * `TypeNode`
    * `toType`
-/

----
-- Tokens
----

namespace Ydsh

namespace Pool

inductive TokenKind where
  | FUNC
  | TYPEOF
  | IDENTIFIER
  | TYPE_OPEN
  | TYPE_CLOSE
  | TYPE_SEP
  | TYPE_DOT
  | ATYPE_OPEN
  | ATYPE_CLOSE
  | PTYPE_OPEN
  | PTYPE_CLOSE
  | TYPE_MSEP
  | TYPE_OPT
  | TYPE_ARROW
  | INVALID
  | EOS
  deriving DecidableEq, Repr

/- `newLine` says whether there is a new line before. -/
structure Token where
  kind : TokenKind
  text : String
  newLine : Bool
  deriving DecidableEq, Repr

def isNameHead (c : Char) : Bool :=
  c == '_' || c.isAlpha

def isNameChar (c : Char) : Bool :=
  c == '_' || c.isAlphanum

def isNewLine (c : Char) : Bool :=
  c == '\n' || c == '\r'

/- Blanks, comments and line continuations are skipped. -/
def skipBlank
    (inComment newLine : Bool) :
    List Char → Bool × List Char
  | [] => (newLine, [])
  | '\\' :: '\n' :: rest =>
      if inComment then
        skipBlank false true rest
      else
        skipBlank false newLine rest
  | '\\' :: '\r' :: rest =>
      if inComment then
        skipBlank false true rest
      else
        skipBlank false newLine rest
  | c :: rest =>
      if isNewLine c then
        skipBlank false true rest
      else if inComment then
        skipBlank true newLine rest
      else if c = ' ' ∨ c = '\t' then
        skipBlank false newLine rest
      else if c = '#' then
        skipBlank true newLine rest
      else
        (newLine, c :: rest)

def nameKind (name : String) : TokenKind :=
  if name = "Func" then
    .FUNC
  else if name = "typeof" then
    .TYPEOF
  else
    .IDENTIFIER

/- The kind of the next token and its length. -/
def nextKind : List Char → TokenKind × Nat
  | [] => (.EOS, 0)
  | '<' :: _ => (.TYPE_OPEN, 1)
  | '>' :: _ => (.TYPE_CLOSE, 1)
  | ',' :: _ => (.TYPE_SEP, 1)
  | '.' :: _ => (.TYPE_DOT, 1)
  | '[' :: _ => (.ATYPE_OPEN, 1)
  | ']' :: _ => (.ATYPE_CLOSE, 1)
  | '(' :: _ => (.PTYPE_OPEN, 1)
  | ')' :: _ => (.PTYPE_CLOSE, 1)
  | ':' :: _ => (.TYPE_MSEP, 1)
  | '!' :: '=' :: _ => (.INVALID, 1)
  | '!' :: '~' :: _ => (.INVALID, 1)
  | '!' :: _ => (.TYPE_OPT, 1)
  | '=' :: '>' :: _ => (.TYPE_ARROW, 2)
  | '-' :: '>' :: _ => (.TYPE_ARROW, 2)
  | c :: rest =>
      if isNameHead c then
        let name := c :: rest.takeWhile isNameChar
        (nameKind (String.ofList name), name.length)
      else
        (.INVALID, 1)

/- `limit` is larger than the length of the text. -/
def nextTokens : Nat → List Char → List Token
  | 0, _ => [⟨.EOS, "", true⟩]
  | limit + 1, text =>
      let blank := skipBlank false false text
      let next := nextKind blank.2
      if next.1 = .EOS then
        [⟨.EOS, "", true⟩]
      else
        ⟨next.1, String.ofList (blank.2.take next.2), blank.1⟩ ::
          nextTokens limit (blank.2.drop next.2)

def lexType (text : List Char) : List Token :=
  nextTokens (text.length + 1) text

/- The expression of `typeof` is kept as text. -/
inductive TypeNode where
  | base (name : String)
  | qualified (recvType : TypeNode) (name : String)
  | reified (template : String) (elements : List TypeNode)
  | func (returnType : TypeNode) (params : List TypeNode)
  | typeOf (expr : String)
  deriving Repr

inductive ParseError where
  | deepNesting
  | tokenMismatched (actual expected : TokenKind)
  | noViableAlter (actual : TokenKind) (alters : List TokenKind)
  deriving DecidableEq, Repr

abbrev ParseResult (α : Type) :=
  Except ParseError (α × List Token)

/-
  `skippable` says whether new lines are skipped where the type
  name stands.  The parser of expressions is only called after
  `typeof`.
-/
structure TypeParser where
  skippable : Bool
  parseExpression : List Token → ParseResult String

abbrev MAX_NESTING_DEPTH : Nat := 5000

----
-- Parsing
----

abbrev TypeNameParser := List Token → ParseResult TypeNode

def curKind (tokens : List Token) : TokenKind :=
  match tokens with
  | [] => .EOS
  | token :: _ => token.kind

def hasLineTerminator
    (parser : TypeParser)
    (tokens : List Token) : Bool :=
  (tokens.head?.all (fun token => token.newLine)) &&
    !parser.skippable

def expect
    (kind : TokenKind)
    (tokens : List Token) : Except ParseError (List Token) :=
  if curKind tokens = kind then
    .ok tokens.tail
  else
    .error (.tokenMismatched (curKind tokens) kind)

/- Type names separated by commas, after a first one. -/
def parseMore
    (parse : TypeNameParser) :
    Nat → List TypeNode → List Token →
      ParseResult (List TypeNode)
  | 0, types, tokens => .ok (types, tokens)
  | limit + 1, types, tokens =>
      if curKind tokens = .TYPE_SEP then
        match parse tokens.tail with
        | .error e => .error e
        | .ok (type, tokens) =>
            parseMore parse limit (types ++ [type]) tokens
      else
        .ok (types, tokens)

def parseTypes
    (parse : TypeNameParser)
    (tokens : List Token) : ParseResult (List TypeNode) :=
  match parse tokens with
  | .error e => .error e
  | .ok (type, rest) => parseMore parse rest.length [type] rest

/- Names after dots. -/
def parseQualified
    (parser : TypeParser) :
    Nat → TypeNode → List Token → ParseResult TypeNode
  | 0, type, tokens => .ok (type, tokens)
  | limit + 1, type, tokens =>
      if !hasLineTerminator parser tokens &&
          curKind tokens = .TYPE_DOT then
        if curKind tokens.tail = .IDENTIFIER then
          parseQualified parser limit
            (.qualified type
              ((tokens.tail.head?.map Token.text).getD ""))
            tokens.tail.tail
        else
          .error
            (.tokenMismatched (curKind tokens.tail) .IDENTIFIER)
      else
        .ok (type, tokens)

def parse_basicOrReifiedType
    (parser : TypeParser)
    (parse : TypeNameParser)
    (name : String)
    (tokens : List Token) : ParseResult TypeNode :=
  if hasLineTerminator parser tokens then
    .ok (.base name, tokens)
  else if curKind tokens = .TYPE_OPEN then
    match parseTypes parse tokens.tail with
    | .error e => .error e
    | .ok (types, tokens) =>
        match expect .TYPE_CLOSE tokens with
        | .error e => .error e
        | .ok tokens => .ok (.reified name types, tokens)
  else
    parseQualified parser tokens.length (.base name) tokens

/- The types up to the closing parenthesis and the commas. -/
def parseParens
    (parse : TypeNameParser) :
    Nat → List TypeNode → Nat → List Token →
      ParseResult (List TypeNode × Nat)
  | 0, types, count, tokens => .ok ((types, count), tokens)
  | limit + 1, types, count, tokens =>
      if curKind tokens = .PTYPE_CLOSE then
        .ok ((types, count), tokens)
      else
        match parse tokens with
        | .error e => .error e
        | .ok (type, tokens) =>
            if curKind tokens = .TYPE_SEP then
              parseParens parse limit (types ++ [type])
                (count + 1) tokens.tail
            else if curKind tokens = .PTYPE_CLOSE then
              parseParens parse limit (types ++ [type]) count
                tokens
            else
              .error
                (.noViableAlter (curKind tokens)
                  [.TYPE_SEP, .PTYPE_CLOSE])

def createTupleOrBasicType
    (types : List TypeNode)
    (commaCount : Nat) : TypeNode :=
  if commaCount = 0 then
    types.headD (.base "")
  else
    .reified "Tuple" types

def parseParenType
    (parse : TypeNameParser)
    (tokens : List Token) : ParseResult TypeNode :=
  match parseParens parse (tokens.length + 1) [] 0 tokens with
  | .error e => .error e
  | .ok ((types, count), tokens) =>
      match expect .PTYPE_CLOSE tokens with
      | .error e => .error e
      | .ok tokens =>
          if types.isEmpty || curKind tokens = .TYPE_ARROW then
            match expect .TYPE_ARROW tokens with
            | .error e => .error e
            | .ok tokens =>
                match parse tokens with
                | .error e => .error e
                | .ok (returnType, tokens) =>
                    .ok (.func returnType types, tokens)
          else
            .ok (createTupleOrBasicType types count, tokens)

def parseBracketType
    (parse : TypeNameParser)
    (tokens : List Token) : ParseResult TypeNode :=
  match parse tokens with
  | .error e => .error e
  | .ok (type, tokens) =>
      if curKind tokens = .TYPE_MSEP then
        match parse tokens.tail with
        | .error e => .error e
        | .ok (value, tokens) =>
            match expect .ATYPE_CLOSE tokens with
            | .error e => .error e
            | .ok tokens => .ok (.reified "Map" [type, value], tokens)
      else
        match expect .ATYPE_CLOSE tokens with
        | .error e => .error e
        | .ok tokens => .ok (.reified "Array" [type], tokens)

/- The parameters of `Func<T, [P, ..]>`. -/
def parseFuncParams
    (parse : TypeNameParser)
    (tokens : List Token) : ParseResult (List TypeNode) :=
  if curKind tokens = .TYPE_SEP then
    match expect .ATYPE_OPEN tokens.tail with
    | .error e => .error e
    | .ok tokens =>
        match parseTypes parse tokens with
        | .error e => .error e
        | .ok (types, tokens) =>
            match expect .ATYPE_CLOSE tokens with
            | .error e => .error e
            | .ok tokens => .ok (types, tokens)
  else
    .ok ([], tokens)

def parseFuncType
    (parser : TypeParser)
    (parse : TypeNameParser)
    (name : String)
    (tokens : List Token) : ParseResult TypeNode :=
  if !hasLineTerminator parser tokens &&
      curKind tokens = .TYPE_OPEN then
    match parse tokens.tail with
    | .error e => .error e
    | .ok (returnType, tokens) =>
        match parseFuncParams parse tokens with
        | .error e => .error e
        | .ok (params, tokens) =>
            match expect .TYPE_CLOSE tokens with
            | .error e => .error e
            | .ok tokens => .ok (.func returnType params, tokens)
  else
    .ok (.base name, tokens)

def parse_typeNameImpl
    (parser : TypeParser)
    (parse : TypeNameParser)
    (parseBasic : String → TypeNameParser)
    (tokens : List Token) : ParseResult TypeNode :=
  match tokens with
  | [] => .error (.noViableAlter .EOS [])
  | token :: tokens =>
      match token.kind with
      | .IDENTIFIER => parseBasic token.text tokens
      | .PTYPE_OPEN => parseParenType parse tokens
      | .ATYPE_OPEN => parseBracketType parse tokens
      | .TYPEOF =>
          if curKind tokens = .PTYPE_OPEN then
            match parser.parseExpression tokens.tail with
            | .error e => .error e
            | .ok (expr, tokens) => .ok (.typeOf expr, tokens)
          else
            parseBasic token.text tokens
      | .FUNC => parseFuncType parser parse token.text tokens
      | kind =>
          .error
            (.noViableAlter kind
              [.IDENTIFIER, .PTYPE_OPEN, .ATYPE_OPEN, .FUNC,
                .TYPEOF])

/- A type name may be followed by any number of `!`. -/
def parseOptions
    (parser : TypeParser) :
    Nat → TypeNode → List Token → ParseResult TypeNode
  | 0, type, tokens => .ok (type, tokens)
  | limit + 1, type, tokens =>
      if !hasLineTerminator parser tokens &&
          curKind tokens = .TYPE_OPT then
        parseOptions parser limit (.reified "Option" [type])
          tokens.tail
      else
        .ok (type, tokens)

def parseWithOptions
    (parser : TypeParser)
    (parse : TypeNameParser)
    (parseBasic : String → TypeNameParser)
    (tokens : List Token) : ParseResult TypeNode :=
  match parse_typeNameImpl parser parse parseBasic tokens with
  | .error e => .error e
  | .ok (type, rest) => parseOptions parser rest.length type rest

def tooDeep (_ : List Token) : ParseResult TypeNode :=
  .error .deepNesting

/-
  The number says how many calls may still be nested.  A name
  is read in a nested call, and its arguments in another one.
-/
def parse_typeName
    (parser : TypeParser) : Nat → TypeNameParser
  | 0 => tooDeep
  | 1 => parseWithOptions parser tooDeep (fun _ => tooDeep)
  | remaining + 2 =>
      parseWithOptions parser
        (parse_typeName parser (remaining + 1))
        (parse_basicOrReifiedType parser
          (parse_typeName parser remaining))

/- A type name by itself, not nested in anything. -/
def parseType
    (parser : TypeParser)
    (name : String) : ParseResult TypeNode :=
  parse_typeName parser (MAX_NESTING_DEPTH - 1)
    (lexType name.toList)

----
-- Types of Trees
----

inductive TypeError where
  | lookup (error : TypeLookupError)
  | required
  | undefinedField (name : String)
  | undefinedExpr
  deriving DecidableEq, Repr

/-
  What the current scope gives: the type an alias stands for,
  the type a module calls by a name, and the type of an
  expression.
-/
structure TypeScope where
  lookup : String → Option TypeId
  lookupField : TypeId → String → Option TypeId
  typeOfExpr : String → Option TypeId

def lookupError
    (pool : TypePool)
    (created : Except TypeLookupError (TypePool × TypeId)) :
    TypePool × Except TypeError TypeId :=
  match created with
  | .ok (pool, type) => (pool, .ok type)
  | .error e => (pool, .error (.lookup e))

def toBaseType
    (scope : TypeScope)
    (pool : TypePool)
    (name : String) : Except TypeError TypeId :=
  match scope.lookup (Scope.toTypeAliasFullName name) with
  | some type => .ok type
  | none =>
      match pool.getType name with
      | .ok type => .ok type
      | .error e => .error (.lookup e)

def toFieldType
    (scope : TypeScope)
    (pool : TypePool)
    (recvType : TypeId)
    (name : String) : Except TypeError TypeId :=
  match (pool.get recvType).shape with
  | .module _ =>
      match scope.lookupField recvType
          (Scope.toTypeAliasFullName name) with
      | some type => .ok type
      | none => .error (.undefinedField name)
  | _ => .error .required

mutual

/- Types that have been made stay when a later one fails. -/
def toType
    (scope : TypeScope)
    (table : NativeTable)
    (pool : TypePool) :
    TypeNode → TypePool × Except TypeError TypeId
  | .base name => (pool, toBaseType scope pool name)
  | .qualified recvType name =>
      match toType scope table pool recvType with
      | (pool, .error e) => (pool, .error e)
      | (pool, .ok recv) => (pool, toFieldType scope pool recv name)
  | .reified template elements =>
      match TypePool.getTypeTemplate template with
      | .error e => (pool, .error (.lookup e))
      | .ok template =>
          match toTypes scope table pool elements with
          | (pool, .error e) => (pool, .error e)
          | (pool, .ok elementTypes) =>
              lookupError pool
                (pool.createReifiedType table template
                  elementTypes)
  | .func returnType params =>
      match toType scope table pool returnType with
      | (pool, .error e) => (pool, .error e)
      | (pool, .ok returnType) =>
          match toTypes scope table pool params with
          | (pool, .error e) => (pool, .error e)
          | (pool, .ok paramTypes) =>
              lookupError pool
                (pool.createFuncType table returnType paramTypes)
  | .typeOf expr =>
      (pool,
        match scope.typeOfExpr expr with
        | some type => .ok type
        | none => .error .undefinedExpr)

def toTypes
    (scope : TypeScope)
    (table : NativeTable)
    (pool : TypePool) :
    List TypeNode → TypePool × Except TypeError (List TypeId)
  | [] => (pool, .ok [])
  | node :: nodes =>
      match toType scope table pool node with
      | (pool, .error e) => (pool, .error e)
      | (pool, .ok type) =>
          match toTypes scope table pool nodes with
          | (pool, .error e) => (pool, .error e)
          | (pool, .ok types) => (pool, .ok (type :: types))

end

/- The equations that proofs unfold. -/
attribute [local simp] parseQualified parseParens toType toTypes

end Pool

end Ydsh
